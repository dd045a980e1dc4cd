import ModuleBuild.Compile.Scope
import ModuleBuild.Proofs.Compile.Related
import ModuleBuild.Proofs.Registry.Operations

/-! # What bodies and hooks can do

Bodies and hooks act on the module they belong to through its scope.  All that they do
to it comes down to logging calls and notes, changing the module's attributes,
documentation and definitions (`ModuleState.Change`), and calling hooks.  So a relation
of runs that allows these (`ScopeLaw`) relates the runs of every operation of a scope.

For a law about worlds, a `CodeConduct` says what has to be checked: that events of
code may be logged and that the entry under the scope's ticket may be changed.
-/
namespace ModuleBuild

/-- The events that code logs: calls of hooks and functions, and notes. -/
def Event.isOfCode : Event → Bool
  | .fired .. | .dispatched .. | .called .. | .noted .. => true
  | _ => false

/-- A change that code may make to the state of the module it belongs to. -/
inductive ModuleState.Change (s : ModuleState) : ModuleState → Prop where
  | attributes (a : AttributeStore) : Change s { s with attributes := a }
  | docs (d : DocTables) : Change s { s with docs := d }
  | define {d d' : Definition} {isNew : Bool} {ds : DefinitionStore}
      (hphase : s.phase.canDefine = true) (h : s.definitions.define d = .ok (d', isNew, ds)) :
      Change s { s with definitions := ds }
  | recordLocal {p : NameArity} {ds : DefinitionStore} (h : s.definitions.recordLocal p = .ok ds) :
      Change s { s with definitions := ds }

/-- A relation that allows what code does to the module of a scope. -/
structure ScopeLaw (scope : ModuleScope) (P : RunRelation) : Prop
    extends RunRelation.Congruence P where
  record : ∀ e : Event, e.isOfCode = true → P (Run.record e) (Run.record e)
  changeAttributes : ∀ f, P (Run.changeAttributes scope f) (Run.changeAttributes scope f)
  changeDocs : ∀ f : DocTables → DocTables,
    P (Run.updateEntry scope fun s => { s with docs := f s.docs })
      (Run.updateEntry scope fun s => { s with docs := f s.docs })
  recordLocal : ∀ p, P (Engine.recordLocal scope p) (Engine.recordLocal scope p)

/-- A relation that allows changes of the entry of a scope, whatever is logged. -/
structure EntryLaw (scope : ModuleScope) (P : RunRelation) : Prop
    extends RunRelation.Congruence P where
  changeAttributes : ∀ f, P (Run.changeAttributes scope f) (Run.changeAttributes scope f)
  changeDocs : ∀ f : DocTables → DocTables,
    P (Run.updateEntry scope fun s => { s with docs := f s.docs })
      (Run.updateEntry scope fun s => { s with docs := f s.docs })
  recordLocal : ∀ p, P (Engine.recordLocal scope p) (Engine.recordLocal scope p)

theorem ScopeLaw.entryLaw {scope : ModuleScope} {P : RunRelation} (hP : ScopeLaw scope P) :
    EntryLaw scope P :=
  ⟨hP.toCongruence, hP.changeAttributes, hP.changeDocs, hP.recordLocal⟩

/-- The hooks of other modules, called in a scope by two engines, are related. -/
def Engine.FiresRelated (g g' : Engine) (scope : ModuleScope) (P : RunRelation) : Prop :=
  ∀ phase target subject env,
    P (g.fire phase target subject env scope) (g'.fire phase target subject env scope)

namespace Engine

/-! ## Definitions -/

/-- The definition that is added to the module's table. -/
def NewDefinition.definition (n : NewDefinition) (scope : ModuleScope) : Definition where
  kind := n.kind
  pair := n.pair
  clauses := n.clauses
  location := ⟨scope.env.file, n.line.getD scope.env.line⟩

/-- What comes of a definition before any hook is called: the definition, whether it is new, and
the world in which it stands in the module's table. -/
def NewDefinition.accept (n : NewDefinition) (scope : ModuleScope) (w : World) :
    Except Failure (Definition × Bool × World) :=
  match w.registry.find? scope.ticket with
  | none => .error (.ofProblem { condition := .moduleNotOpen scope.module })
  | some e =>
    if e.phase.canDefine then
      match e.definitions.define (n.definition scope) with
      | .error p => .error (.ofProblem p)
      | .ok (d, isNew, definitions) =>
        .ok (d, isNew,
          { w with registry := w.registry.update scope.ticket fun s => { s with definitions } })
    else
      .error (.ofProblem ⟨.definitionsClosed n.pair scope.module e.phase.name,
        some (n.definition scope).location⟩)

/-- An accepted definition is made in a phase that allows it, and the module's table takes it. -/
theorem NewDefinition.accept_eq_ok {n : NewDefinition} {scope : ModuleScope} {w w₁ : World}
    {d : Definition} {isNew : Bool} (h : n.accept scope w = .ok (d, isNew, w₁)) :
    ∃ e ds, w.registry.find? scope.ticket = some e ∧ e.phase.canDefine = true ∧
      e.definitions.define (n.definition scope) = .ok (d, isNew, ds) ∧
      w₁ = { w with registry := w.registry.update scope.ticket fun s =>
        { s with definitions := ds } } := by
  unfold accept at h
  split at h
  · cases h
  · next e he =>
    split at h
    · next hphase =>
      split at h
      · cases h
      · next d' isNew' ds hds =>
        cases h
        exact ⟨e, ds, he, hphase, hds, rfl⟩
    · cases h

/-- Call the hooks for an accepted definition if it is new. -/
def announce (g : Engine) (scope : ModuleScope) (n : NewDefinition) (d : Definition) :
    Bool → Run (Definition × Bool)
  | true => do
    g.runOnDefinition scope { scope.env with
      line := (n.definition scope).location.line, function := some n.pair } d
    pure (d, true)
  | false => pure (d, false)

/-- **A definition is accepted or refused first**, and then calls the hooks if it is new. -/
theorem define_eq (g : Engine) (scope : ModuleScope) (n : NewDefinition) (w : World) :
    g.define scope n w = match n.accept scope w with
      | .error f => (.error (.failed f), w)
      | .ok (d, isNew, w₁) => g.announce scope n d isNew w₁ := by
  unfold define NewDefinition.accept
  rw [Run.bind_apply, Run.entry_apply]
  cases w.registry.find? scope.ticket with
  | none => rfl
  | some e =>
    simp only
    split
    · rw [Run.bind_apply]
      simp only [NewDefinition.definition]
      generalize e.definitions.define _ = answer
      cases answer with
      | error p => rfl
      | ok answer =>
        obtain ⟨d, isNew, ds⟩ := answer
        cases isNew <;> rfl
    · rfl

/-! ## Attributes and documentation -/

section Entries

variable {g g' : Engine} {scope : ModuleScope} {P : RunRelation} (hP : EntryLaw scope P)
include hP

theorem related_takeDefinitionDoc (d : Definition) :
    P (takeDefinitionDoc scope d) (takeDefinitionDoc scope d) := by
  refine hP.bind (hP.attributes scope) fun t => ?_
  split
  · exact hP.bind (hP.changeDocs (·.addDefinition _)) fun _ => hP.changeAttributes _
  · exact hP.pure ()

theorem related_runBuiltin (name : String) (subject : HookSubject) :
    P (runBuiltin scope name subject) (runBuiltin scope name subject) := by
  unfold runBuiltin
  split
  · cases subject with
    | definition d => exact related_takeDefinitionDoc hP d
    | none | artifact a => exact hP.fail _
  · split
    · exact hP.changeAttributes _
    · exact hP.fail _

theorem related_takePendingDoc (hhost : g'.host = g.host) (key : String) (form : Value) :
    P (g.takePendingDoc scope key form) (g'.takePendingDoc scope key form) := by
  unfold takePendingDoc
  rw [hhost]
  refine hP.bind (hP.attributes scope) fun t => ?_
  split
  · exact hP.bind (hP.changeAttributes _) fun _ => hP.pure _
  · exact hP.pure _

theorem related_putAttribute (hhost : g'.host = g.host) (key : String) (v : Value) :
    P (g.putAttribute scope key v) (g'.putAttribute scope key v) := by
  refine hP.bind (hP.changeAttributes _) fun _ => ?_
  cases TypeKind.ofKey? key with
  | some kind =>
    refine hP.bind (related_takePendingDoc hP hhost _ v) fun doc => ?_
    cases doc with
    | some d => exact hP.changeDocs (·.addType _)
    | none => exact hP.pure ()
  | none =>
    cases CallbackKind.ofKey? key with
    | some kind =>
      refine hP.bind (related_takePendingDoc hP hhost _ v) fun doc => ?_
      cases doc with
      | some d => exact hP.changeDocs (·.addCallback _)
      | none => exact hP.pure ()
    | none => exact hP.pure ()

theorem related_readAttribute (key : String) :
    P (readAttribute scope key) (readAttribute scope key) :=
  hP.bind (hP.attributes scope) fun _ => hP.pure _

end Entries

section Related

variable {g g' : Engine} {scope : ModuleScope} {P : RunRelation} (hP : ScopeLaw scope P)
include hP

/-! ## Hooks -/

section Calls

variable (hfire : g.FiresRelated g' scope P)
include hfire

theorem related_callHook (phase : HookPhase) (hook : Value) (subject : HookSubject)
    (env : CompileEnv) :
    P (g.callHook phase hook subject env scope) (g'.callHook phase hook subject env scope) := by
  unfold callHook
  cases HookTarget.ofValue? phase hook with
  | none => exact hP.fail _
  | some target =>
    by_cases hbuiltin : target.module = compilerHookModule
    · simp only [hbuiltin, if_true]
      exact hP.bind (related_runBuiltin hP.entryLaw _ _) fun _ => hP.pure env
    · simp only [hbuiltin, if_false]
      exact hfire _ _ _ _

theorem related_runHook (phase : HookPhase) (subject : HookSubject) (env : CompileEnv)
    (hook : Value) :
    P (g.runHook phase subject scope env hook) (g'.runHook phase subject scope env hook) := by
  refine hP.bind (hP.record _ rfl) fun _ => ?_
  refine hP.bind (hP.attempt (related_callHook hP hfire phase hook subject env)) fun outcome => ?_
  cases outcome with
  | ok env => exact hP.pure env
  | error f => exact hP.fail _

theorem related_runEach (phase : HookPhase) (subject : HookSubject) (env : CompileEnv)
    (hooks : List Value) :
    P (g.runEach phase subject scope env hooks) (g'.runEach phase subject scope env hooks) := by
  induction hooks with
  | nil => exact hP.pure ()
  | cons hook rest ih =>
    exact hP.bind (related_runHook hP hfire phase subject env hook) fun _ => ih

theorem related_runThrough (phase : HookPhase) (subject : HookSubject) (env : CompileEnv)
    (hooks : List Value) :
    P (g.runThrough phase subject scope env hooks)
      (g'.runThrough phase subject scope env hooks) := by
  induction hooks generalizing env with
  | nil => exact hP.pure env
  | cons hook rest ih => exact hP.bind (related_runHook hP hfire phase subject env hook) ih

theorem related_runOnDefinition (env : CompileEnv) (d : Definition) :
    P (g.runOnDefinition scope env d) (g'.runOnDefinition scope env d) :=
  hP.bind (hP.attributes scope) fun _ => related_runEach hP hfire _ _ _ _

theorem related_runBeforeCompile (env : CompileEnv) :
    P (g.runBeforeCompile scope env) (g'.runBeforeCompile scope env) :=
  hP.bind (hP.attributes scope) fun _ => related_runThrough hP hfire _ _ _ _

theorem related_runAfterCompile (env : CompileEnv) (a : Artifact) :
    P (g.runAfterCompile scope env a) (g'.runAfterCompile scope env a) :=
  hP.bind (hP.attributes scope) fun _ =>
    hP.bind (related_runThrough hP hfire _ _ _ _) fun _ => hP.pure ()

end Calls

end Related
end Engine

/-! ## Laws about worlds -/

/-- A conduct that allows what code does to the module under a ticket. -/
structure CodeConduct (t : Ticket) (R : World → World → Prop) : Prop extends Conduct R where
  note : ∀ w (e : Event), e.isOfCode = true → R w { w with log := w.log ++ [e] }
  change : ∀ w (e : ModuleEntry) s, w.registry.find? t = some e → e.toModuleState.Change s →
    R w { w with registry := w.registry.update t fun _ => s }

/-- The hooks of other modules stay within a conduct of the module they run in. -/
def Engine.FiresWithin (g : Engine) (scope : ModuleScope) (R : World → World → Prop) : Prop :=
  ∀ phase target subject env, Run.Within R (g.fire phase target subject env scope)

namespace CodeConduct

open Run

variable {R : World → World → Prop} {scope : ModuleScope} (hR : CodeConduct scope.ticket R)
include hR

/-- A change of the scope's entry that code may make. -/
theorem within_updateEntry {f : ModuleState → ModuleState}
    (hf : ∀ s, ModuleState.Change s (f s)) : Within R (updateEntry scope f) := by
  intro w _
  change R w { w with registry := w.registry.update scope.ticket f }
  cases he : w.registry.find? scope.ticket with
  | none =>
    rw [Registry.update_of_find?_eq_none he]
    exact hR.refl w
  | some e =>
    rw [Registry.update_of_find? he]
    exact hR.change w e _ he (hf _)

theorem within_changeAttributes (f : AttributeStore → Except Condition AttributeStore) :
    Within R (changeAttributes scope f) := by
  have hP := congruence_within hR.toConduct
  change within R (changeAttributes scope f) (changeAttributes scope f)
  exact hP.bind (hP.entry scope) fun e =>
    hP.bind (hP.ofCondition _) fun a => within_updateEntry hR fun _ => .attributes a

theorem within_recordLocal (p : NameArity) : Within R (Engine.recordLocal scope p) := by
  intro w
  unfold Engine.recordLocal
  rw [bind_apply, entry_apply]
  cases he : w.registry.find? scope.ticket with
  | none => exact fun _ => hR.refl w
  | some e =>
    simp only [bind_apply]
    cases hds : e.definitions.recordLocal p with
    | error c => exact fun _ => hR.refl w
    | ok ds =>
      intro _
      change R w { w with registry := w.registry.update scope.ticket _ }
      rw [Registry.update_of_find? he]
      exact hR.change w e _ he (.recordLocal hds)

/-- **Operations of a scope stay within every conduct of its module.** -/
theorem scopeLaw : ScopeLaw scope (within R) where
  toCongruence := congruence_within hR.toConduct
  record e he := fun w _ => hR.note w e he
  changeAttributes := within_changeAttributes hR
  changeDocs f := within_updateEntry hR fun s => .docs (f s.docs)
  recordLocal := within_recordLocal hR

/-- Definitions stay within a conduct of the module if the hooks that they call do. -/
theorem within_define {g : Engine} (hhooks : ∀ env d, Within R (g.runOnDefinition scope env d))
    (n : Engine.NewDefinition) : Within R (g.define scope n) := by
  intro w
  rw [Engine.define_eq]
  cases haccept : n.accept scope w with
  | error f => exact fun _ => hR.refl w
  | ok answer =>
    obtain ⟨d, isNew, w₁⟩ := answer
    obtain ⟨e, ds, he, hphase, hds, rfl⟩ := Engine.NewDefinition.accept_eq_ok haccept
    have hchange : R w { w with registry := w.registry.update scope.ticket fun s =>
        { s with definitions := ds } } := by
      rw [Registry.update_of_find? he]
      exact hR.change w e _ he (.define hphase hds)
    cases isNew with
    | false => exact fun _ => hchange
    | true =>
      intro hne
      have hannounce : Within R (g.announce scope n d true) :=
        within_bind hR.toConduct (hhooks _ d) fun _ => within_pure hR.toConduct (d, true)
      exact hR.trans hchange (hannounce _ hne)

end CodeConduct
end ModuleBuild
