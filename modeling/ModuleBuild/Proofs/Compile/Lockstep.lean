import ModuleBuild.Proofs.Compile.Relocation
import ModuleBuild.Proofs.Compile.Within

/-! # Runs in lockstep

Runs under the two names of a file are in lockstep if they go from related worlds to related
worlds and end alike: both with related results, both with related failures, or both exhausted
(`Run.Lockstep`).  The combinators keep runs in lockstep, and so does everything that code does to
the module it stands in, for hosts that answer the same to related logs (`Host.Relocated`) and for
hooks that are in lockstep themselves (`Engine.Relocated`).
-/
namespace ModuleBuild

open Run

variable {r : Relocation}

/-- Functions of the log that answer the same under the two names. -/
def AnswersAlike (r : Relocation) {α : Type} (f f' : List Event → α) : Prop :=
  ∀ log log', LogRelocated r log log' → f' log' = f log

/-- Hosts under the two names: with the same flags, and with directories below which the file
stands at the same path.  They answer the same, whatever its name is. -/
structure Host.Relocated (r : Relocation) (host host' : Host) : Prop where
  docs : host'.options.docs = host.options.docs
  ignoreModuleConflict : host'.options.ignoreModuleConflict = host.options.ignoreModuleConflict
  isInternal : host'.options.isInternal = host.options.isInternal
  path : Path.relativeTo host'.options.relativeTo r.target
    = Path.relativeTo host.options.relativeTo r.origin
  observe : AnswersAlike r host.observe host'.observe
  warn : AnswersAlike r host.warn host'.warn
  listener : Option.Rel (AnswersAlike r) host.listener host'.listener
  loader : Option.Rel (AnswersAlike r) host.loader host'.loader

/-- Ways to stop under the two names. -/
inductive Stop.Relocated (r : Relocation) : Stop → Stop → Prop where
  | failed {f f' : Failure} (h : Failure.Relocated r f f') : Relocated r (.failed f) (.failed f')
  | exhausted : Relocated r .exhausted .exhausted

namespace Run

/-- The runs are in lockstep: from related worlds they end alike and leave related worlds. -/
def Lockstep (r : Relocation) {α β : Type} (V : α → β → Prop) (x : Run α) (x' : Run β) : Prop :=
  ∀ ⦃w w'⦄, World.Relocated r w w' →
    EndAlike (Stop.Relocated r) V (x w).1 (x' w').1 ∧ World.Relocated r (x w).2 (x' w').2

section Rules

variable {α β γ δ : Type} {U : α → β → Prop} {V : γ → δ → Prop}

theorem lockstep_pure {a : α} {b : β} (h : U a b) : Lockstep r U (pure a) (pure b) :=
  fun _ _ hw => ⟨.ok h, hw⟩

theorem lockstep_fail {f f' : Failure} (h : Failure.Relocated r f f') :
    Lockstep r U (fail f : Run α) (fail f' : Run β) :=
  fun _ _ hw => ⟨.error (.failed h), hw⟩

theorem lockstep_fail_same (f : Failure) : Lockstep r U (fail f : Run α) (fail f : Run β) :=
  lockstep_fail (.same f)

theorem lockstep_get : Lockstep r (World.Relocated r) (get : Run World) get :=
  fun _ _ hw => ⟨.ok hw, hw⟩

theorem lockstep_modify {f f' : World → World}
    (h : ∀ w w', World.Relocated r w w' → World.Relocated r (f w) (f' w')) :
    Lockstep r Eq (modify f : Run Unit) (modify f') :=
  fun w w' hw => ⟨.ok rfl, h w w' hw⟩

theorem Lockstep.imp {U' : α → β → Prop} {x : Run α} {x' : Run β} (hx : Lockstep r U x x')
    (hU : ∀ a b, U a b → U' a b) : Lockstep r U' x x' := fun _ _ hw =>
  ⟨(hx hw).1.imp (fun _ _ h => h) hU, (hx hw).2⟩

/-- Both runs return, or both stop. -/
theorem Lockstep.ends {x : Run α} {x' : Run β} (hx : Lockstep r U x x') {w w' : World}
    (hw : World.Relocated r w w') :
    (∃ a b v v', x w = (.ok a, v) ∧ x' w' = (.ok b, v') ∧ U a b ∧ World.Relocated r v v') ∨
      ∃ s s' v v', x w = (.error s, v) ∧ x' w' = (.error s', v') ∧ Stop.Relocated r s s' ∧
        World.Relocated r v v' := by
  obtain ⟨hend, hw₁⟩ := hx hw
  rcases hrun : x w with ⟨outcome, v⟩
  rcases hrun' : x' w' with ⟨outcome', v'⟩
  rw [hrun, hrun'] at hend hw₁
  cases hend with
  | error h => exact .inr ⟨_, _, v, v', rfl, rfl, h, hw₁⟩
  | ok h => exact .inl ⟨_, _, v, v', rfl, rfl, h, hw₁⟩

theorem lockstep_bind {x : Run α} {x' : Run β} {f : α → Run γ} {f' : β → Run δ}
    (hx : Lockstep r U x x') (hf : ∀ a b, U a b → Lockstep r V (f a) (f' b)) :
    Lockstep r V (x >>= f) (x' >>= f') := by
  intro w w' hw
  rw [bind_apply, bind_apply]
  rcases hx.ends hw with ⟨a, b, v, v', hrun, hrun', hab, hv⟩ | ⟨s, s', v, v', hrun, hrun', hs, hv⟩
  · rw [hrun, hrun']
    exact hf a b hab hv
  · rw [hrun, hrun']
    exact ⟨.error hs, hv⟩

theorem lockstep_attempt {x : Run α} {x' : Run β} (hx : Lockstep r U x x') :
    Lockstep r (EndAlike (Failure.Relocated r) U) (attempt x) (attempt x') := by
  intro w w' hw
  unfold attempt
  rcases hx.ends hw with ⟨a, b, v, v', hrun, hrun', hab, hv⟩ | ⟨s, s', v, v', hrun, hrun', hs, hv⟩
  · rw [hrun, hrun']
    exact ⟨.ok (.ok hab), hv⟩
  · rw [hrun, hrun']
    cases hs with
    | failed hf => exact ⟨.ok (.error hf), hv⟩
    | exhausted => exact ⟨.error .exhausted, hv⟩

theorem lockstep_ofCondition {x : Except Condition α} {x' : Except Condition β}
    (h : EndAlike Eq U x x') : Lockstep r U (ofCondition x) (ofCondition x') := by
  cases h with
  | error hc =>
    cases hc
    exact lockstep_fail_same _
  | ok h => exact lockstep_pure h

theorem lockstep_ofProblem {x : Except Problem α} {x' : Except Problem β}
    (h : EndAlike (Problem.Relocated r) U x x') :
    Lockstep r U (ofProblem x) (ofProblem x') := by
  cases h with
  | error hp => exact lockstep_fail (.problem hp)
  | ok h => exact lockstep_pure h

theorem lockstep_ofFailure {x : Except Failure α} {x' : Except Failure β}
    (h : EndAlike (Failure.Relocated r) U x x') :
    Lockstep r U (ofFailure x) (ofFailure x') := by
  cases h with
  | error hf => exact lockstep_fail hf
  | ok h => exact lockstep_pure h

/-- A computation that does not depend on the name of the file. -/
theorem lockstep_ofCondition_self (x : Except Condition α) :
    Lockstep r Eq (ofCondition x) (ofCondition x) :=
  lockstep_ofCondition (.refl (fun _ => rfl) (fun _ => rfl) x)

theorem lockstep_list_forM {f f' : α → Run PUnit} (hf : ∀ a, Lockstep r Eq (f a) (f' a))
    (l : List α) : Lockstep r Eq (l.forM f) (l.forM f') := by
  induction l with
  | nil => exact lockstep_pure rfl
  | cons a rest ih => exact lockstep_bind (hf a) fun _ _ _ => ih

theorem lockstep_option_forM {f f' : α → Run PUnit} (hf : ∀ a, Lockstep r Eq (f a) (f' a))
    (o : Option α) : Lockstep r Eq (o.forM f) (o.forM f') := by
  cases o with
  | none => exact lockstep_pure rfl
  | some a => exact hf a

/-! ## Events -/

theorem lockstep_emit {e e' : Event} (he : Event.Relocated r e e')
    {answer answer' : List Event → α} (hanswer : AnswersAlike r answer answer') :
    Lockstep r Eq (emit e answer) (emit e' answer') := by
  intro w w' hw
  have happended := hw.append he
  exact ⟨.ok (hanswer _ _ happended.log).symm, happended⟩

theorem lockstep_record {e e' : Event} (he : Event.Relocated r e e') :
    Lockstep r Eq (record e) (record e') :=
  lockstep_emit he fun _ _ _ => rfl

variable {host host' : Host} (hhost : Host.Relocated r host host')
include hhost

theorem lockstep_warn (m : String) (d : Diagnostic) :
    Lockstep r Eq (warn host m d) (warn host' m d) := by
  refine lockstep_bind (lockstep_emit (.same _) hhost.warn) ?_
  rintro answer _ rfl
  cases answer with
  | some f => exact lockstep_fail_same f
  | none => exact lockstep_pure rfl

theorem lockstep_notify (callback m : String) (l : Location) {e e' : Event}
    (he : Event.Relocated r e e') :
    Lockstep r Eq (notify host callback m l e) (notify host' callback m l e') := by
  refine lockstep_bind (lockstep_emit he hhost.observe) ?_
  rintro answer _ rfl
  cases answer with
  | some f =>
    refine lockstep_bind (lockstep_ofFailure (EndAlike.refl .same (fun _ => rfl) f.describe)) ?_
    rintro reason _ rfl
    exact lockstep_warn hhost m _
  | none => exact lockstep_pure rfl

end Rules

/-! ## The module of a scope -/

section Entry

variable {scope scope' : ModuleScope} (hscope : ModuleScope.Relocated r scope scope')
include hscope

theorem lockstep_entry : Lockstep r (ModuleEntry.Relocated r) (entry scope) (entry scope') := by
  refine lockstep_bind lockstep_get fun w w' hw => ?_
  have hentry := hw.registry.entries scope.ticket
  rw [hscope.ticket, hscope.module]
  generalize w.registry.find? scope.ticket = e at hentry ⊢
  generalize w'.registry.find? scope.ticket = e' at hentry ⊢
  cases hentry with
  | none => exact lockstep_fail_same _
  | some he => exact lockstep_pure he

theorem lockstep_updateEntry {f f' : ModuleState → ModuleState}
    (hf : ∀ s s', ModuleState.Relocated r s s' → ModuleState.Relocated r (f s) (f' s')) :
    Lockstep r Eq (updateEntry scope f) (updateEntry scope' f') := by
  unfold updateEntry
  rw [hscope.ticket]
  exact lockstep_modify fun w w' hw => { hw with registry := hw.registry.update scope.ticket hf }

theorem lockstep_updateDocs (f : DocTables → DocTables) :
    Lockstep r Eq (updateEntry scope fun s => { s with docs := f s.docs })
      (updateEntry scope' fun s => { s with docs := f s.docs }) :=
  lockstep_updateEntry hscope fun _ _ hs => { hs with docs := congrArg f hs.docs }

/-- Attributes do not depend on the name of the file. -/
theorem lockstep_attributes : Lockstep r Eq (attributes scope) (attributes scope') := by
  refine lockstep_bind (lockstep_entry hscope) fun e e' he => ?_
  rw [he.state.attributes]
  exact lockstep_ofCondition_self _

theorem lockstep_changeAttributes (f : AttributeStore → Except Condition AttributeStore) :
    Lockstep r Eq (changeAttributes scope f) (changeAttributes scope' f) := by
  refine lockstep_bind (lockstep_entry hscope) fun e e' he => ?_
  rw [he.state.attributes]
  refine lockstep_bind (lockstep_ofCondition_self _) ?_
  rintro attributes _ rfl
  exact lockstep_updateEntry hscope fun _ _ hs => { hs with attributes := rfl }

end Entry
end Run

/-- Engines under the two names, whose hooks are in lockstep. -/
structure Engine.Relocated (r : Relocation) (g g' : Engine) : Prop where
  host : Host.Relocated r g.host g'.host
  fire : ∀ (phase : HookPhase) (target : HookTarget) ⦃subject subject' : HookSubject⦄
    ⦃env env' : CompileEnv⦄ ⦃scope scope' : ModuleScope⦄,
    HookSubject.Relocated r subject subject' → CompileEnv.Relocated r env env' →
    ModuleScope.Relocated r scope scope' →
    Lockstep r (CompileEnv.Relocated r) (g.fire phase target subject env scope)
      (g'.fire phase target subject' env' scope')

namespace Engine

section Scope

variable {scope scope' : ModuleScope} (hscope : ModuleScope.Relocated r scope scope')
include hscope

/-! ## Hooks -/

theorem lockstep_takeDefinitionDoc {d d' : Definition} (hd : Definition.Relocated r d d') :
    Lockstep r Eq (takeDefinitionDoc scope d) (takeDefinitionDoc scope' d') := by
  refine lockstep_bind (lockstep_attributes hscope) ?_
  rintro t _ rfl
  by_cases hdoc : t.has "doc"
  · rw [if_pos hdoc, if_pos hdoc]
    cases hd with
    | mk kind pair clauses hplace =>
      rw [hplace.line]
      exact lockstep_bind (lockstep_updateDocs hscope (·.addDefinition _)) fun _ _ _ =>
        lockstep_changeAttributes hscope _
  · rw [if_neg hdoc, if_neg hdoc]
    exact lockstep_pure rfl

theorem lockstep_runBuiltin (name : String) {subject subject' : HookSubject}
    (hsubject : HookSubject.Relocated r subject subject') :
    Lockstep r Eq (runBuiltin scope name subject) (runBuiltin scope' name subject') := by
  unfold runBuiltin
  split
  · cases hsubject with
    | none | artifact => exact lockstep_fail_same _
    | definition hd => exact lockstep_takeDefinitionDoc hscope hd
  · split
    · exact lockstep_changeAttributes hscope _
    · exact lockstep_fail_same _

section Calls

variable {g g' : Engine} (hg : Engine.Relocated r g g')
include hg

theorem lockstep_callHook (phase : HookPhase) (hook : Value) {subject subject' : HookSubject}
    (hsubject : HookSubject.Relocated r subject subject') {env env' : CompileEnv}
    (henv : CompileEnv.Relocated r env env') :
    Lockstep r (CompileEnv.Relocated r) (g.callHook phase hook subject env scope)
      (g'.callHook phase hook subject' env' scope') := by
  unfold callHook
  cases HookTarget.ofValue? phase hook with
  | none => exact lockstep_fail_same _
  | some target =>
    by_cases hbuiltin : target.module = compilerHookModule
    · simp only [hbuiltin, if_true]
      exact lockstep_bind (lockstep_runBuiltin hscope _ hsubject) fun _ _ _ => lockstep_pure henv
    · simp only [hbuiltin, if_false]
      exact hg.fire phase target hsubject henv hscope

/-- A hook that fails does so at the line that it was called for. -/
theorem lockstep_runHook (phase : HookPhase) {subject subject' : HookSubject}
    (hsubject : HookSubject.Relocated r subject subject') {env env' : CompileEnv}
    (henv : CompileEnv.Relocated r env env') (hook : Value) :
    Lockstep r (CompileEnv.Relocated r) (g.runHook phase subject scope env hook)
      (g'.runHook phase subject' scope' env' hook) := by
  unfold runHook
  rw [hscope.module]
  refine lockstep_bind (lockstep_record (.fired _ _ _ henv)) fun _ _ _ => ?_
  have hcall := lockstep_callHook hscope hg phase hook hsubject henv
  refine lockstep_bind (lockstep_attempt hcall) fun outcome outcome' houtcome => ?_
  cases houtcome with
  | ok henv => exact lockstep_pure henv
  | error hf =>
    cases henv with
    | mk line => exact lockstep_fail (hf.ofHookAt phase hook line)

theorem lockstep_runEach (phase : HookPhase) {subject subject' : HookSubject}
    (hsubject : HookSubject.Relocated r subject subject') {env env' : CompileEnv}
    (henv : CompileEnv.Relocated r env env') (hooks : List Value) :
    Lockstep r Eq (g.runEach phase subject scope env hooks)
      (g'.runEach phase subject' scope' env' hooks) := by
  induction hooks with
  | nil => exact lockstep_pure rfl
  | cons hook rest ih =>
    exact lockstep_bind (lockstep_runHook hscope hg phase hsubject henv hook) fun _ _ _ => ih

theorem lockstep_runThrough (phase : HookPhase) {subject subject' : HookSubject}
    (hsubject : HookSubject.Relocated r subject subject') {env env' : CompileEnv}
    (henv : CompileEnv.Relocated r env env') (hooks : List Value) :
    Lockstep r (CompileEnv.Relocated r) (g.runThrough phase subject scope env hooks)
      (g'.runThrough phase subject' scope' env' hooks) := by
  induction hooks generalizing env env' with
  | nil => exact lockstep_pure henv
  | cons hook rest ih =>
    exact lockstep_bind (lockstep_runHook hscope hg phase hsubject henv hook) fun _ _ henv =>
      ih henv

theorem lockstep_runOnDefinition {env env' : CompileEnv} (henv : CompileEnv.Relocated r env env')
    {d d' : Definition} (hd : Definition.Relocated r d d') :
    Lockstep r Eq (g.runOnDefinition scope env d) (g'.runOnDefinition scope' env' d') := by
  refine lockstep_bind (lockstep_attributes hscope) ?_
  rintro t _ rfl
  exact lockstep_runEach hscope hg _ (.definition hd) henv _

theorem lockstep_runBeforeCompile {env env' : CompileEnv}
    (henv : CompileEnv.Relocated r env env') :
    Lockstep r (CompileEnv.Relocated r) (g.runBeforeCompile scope env)
      (g'.runBeforeCompile scope' env') := by
  refine lockstep_bind (lockstep_attributes hscope) ?_
  rintro t _ rfl
  exact lockstep_runThrough hscope hg _ .none henv _

theorem lockstep_runAfterCompile {env env' : CompileEnv}
    (henv : CompileEnv.Relocated r env env') {a a' : Artifact}
    (ha : Artifact.Relocated r a a') :
    Lockstep r Eq (g.runAfterCompile scope env a) (g'.runAfterCompile scope' env' a') := by
  refine lockstep_bind (lockstep_attributes hscope) ?_
  rintro t _ rfl
  exact lockstep_bind (lockstep_runThrough hscope hg _ (.artifact ha) henv _) fun _ _ _ =>
    lockstep_pure rfl

/-! ## Definitions and attributes -/

theorem lockstep_define (n : NewDefinition) :
    Lockstep r (fun x x' => Definition.Relocated r x.1 x'.1 ∧ x'.2 = x.2)
      (g.define scope n) (g'.define scope' n) := by
  have hscope' := hscope
  obtain ⟨module, ticket, henv⟩ := hscope
  obtain ⟨line, outer, function, compiling⟩ := henv
  have hplace : Location.Relocated r ⟨r.origin, n.line.getD line⟩ ⟨r.target, n.line.getD line⟩ :=
    .moved _
  refine lockstep_bind (lockstep_entry hscope') fun e e' he => ?_
  rw [he.state.phase]
  by_cases hphase : e.phase.canDefine
  · rw [if_pos hphase, if_pos hphase]
    refine lockstep_bind (lockstep_ofProblem (he.state.definitions.define (.mk _ _ _ hplace))) ?_
    rintro ⟨d, isNew, ds⟩ ⟨d', isNew', ds'⟩ ⟨hd, hnew, hds⟩
    obtain rfl : isNew' = isNew := hnew
    refine lockstep_bind (lockstep_updateEntry hscope' fun s s' hs => ?_) fun _ _ _ => ?_
    · exact { hs with definitions := hds }
    · cases isNew' with
      | false => exact lockstep_pure ⟨hd, rfl⟩
      | true =>
        exact lockstep_bind (lockstep_runOnDefinition hscope' hg (.mk _ _ _ _) hd) fun _ _ _ =>
          lockstep_pure ⟨hd, rfl⟩
  · rw [if_neg hphase, if_neg hphase]
    exact lockstep_fail (.problem (.closed _ _ _ hplace))

theorem lockstep_takePendingDoc (key : String) (form : Value) :
    Lockstep r Eq (g.takePendingDoc scope key form) (g'.takePendingDoc scope' key form) := by
  refine lockstep_bind (lockstep_attributes hscope) ?_
  rintro t _ rfl
  by_cases hdoc : t.has key
  · rw [if_pos hdoc, if_pos hdoc]
    refine lockstep_bind (lockstep_changeAttributes hscope _) fun _ _ _ => ?_
    rw [hg.host.docs, hscope.env.line_eq]
    exact lockstep_pure rfl
  · rw [if_neg hdoc, if_neg hdoc]
    exact lockstep_pure rfl

theorem lockstep_putAttribute (key : String) (v : Value) :
    Lockstep r Eq (g.putAttribute scope key v) (g'.putAttribute scope' key v) := by
  refine lockstep_bind (lockstep_changeAttributes hscope _) fun _ _ _ => ?_
  cases TypeKind.ofKey? key with
  | some kind =>
    refine lockstep_bind (lockstep_takePendingDoc hscope hg "typedoc" v) ?_
    rintro doc _ rfl
    cases doc with
    | none => exact lockstep_pure rfl
    | some doc => exact lockstep_updateDocs hscope (·.addType _)
  | none =>
    cases CallbackKind.ofKey? key with
    | none => exact lockstep_pure rfl
    | some kind =>
      refine lockstep_bind (lockstep_takePendingDoc hscope hg "doc" v) ?_
      rintro doc _ rfl
      cases doc with
      | none => exact lockstep_pure rfl
      | some doc => exact lockstep_updateDocs hscope (·.addCallback _)

end Calls

theorem lockstep_readAttribute (key : String) :
    Lockstep r Eq (readAttribute scope key) (readAttribute scope' key) := by
  refine lockstep_bind (lockstep_attributes hscope) ?_
  rintro t _ rfl
  exact lockstep_pure rfl

theorem lockstep_recordLocal (p : NameArity) :
    Lockstep r Eq (recordLocal scope p) (recordLocal scope' p) := by
  refine lockstep_bind (lockstep_entry hscope) fun e e' he => ?_
  refine lockstep_bind (lockstep_ofCondition (he.state.definitions.recordLocal p)) ?_
  intro ds ds' hds
  exact lockstep_updateEntry hscope fun s s' hs => { hs with definitions := hds }

end Scope
end Engine
end ModuleBuild
