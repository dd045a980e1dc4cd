import ModuleBuild.Proofs.Artifact.Refusal
import ModuleBuild.Proofs.Compile.Fulfilled
import ModuleBuild.Proofs.Failure.Wording

/-! # Where rejections point

A rejected compilation says where things went wrong: the condition that it stops with has a
place, unless it comes from an attribute store, which does not know where its module stands, or
was thrown by what the compiler is given (`Failure.Points`).

Code of a module keeps the module open in its phase, so the stores that it uses are there
(`Run.Abides`), and hooks fail with the place that called them.  The pipeline takes the module
from phase to phase (`leads_live`), and nothing else fails when it is closed, so what a
compilation stops with points to a place (`points_of_compile`).
-/
namespace ModuleBuild

open Run

/-! ## Failures -/

/-- The conditions of attribute stores, which know nothing of places. -/
def Condition.isOfAttributes : Condition → Bool
  | policyChanged .. => true
  | keyReserved .. => true
  | _ => false

/-- That a failure is a condition, and not something else that was thrown. -/
def Failure.isCondition : Failure → Bool
  | condition .. => true
  | _ => false

/-- What a failure that is rejected with tells of its place, if it is a condition: the place, or
nothing if it is of an attribute store.  Nothing is said of what was thrown from outside. -/
inductive Failure.Points (thrown : Failure → Prop) : Failure → Prop where
  | placed (c : Condition) (l : Location) (fs : List Frame) (o : Option Frame) (k : Cause) :
      Points thrown (.condition c (some l) fs o k)
  | ofAttributes {c : Condition} (h : c.isOfAttributes = true) :
      Points thrown (.ofProblem { condition := c })
  | other {f : Failure} (h : f.isCondition = false) : Points thrown f
  | thrown {f : Failure} (h : thrown f) : Points thrown f

/-- What the host throws at the compiler. -/
def Host.Throws (host : Host) (f : Failure) : Prop :=
  (∃ log, host.warn log = some f) ∨ (∃ listener ∈ host.listener, ∃ log, listener log = some f) ∨
    ∃ loader ∈ host.loader, ∃ log, loader log = .error f

namespace Failure.Points

variable {thrown : Failure → Prop} {f : Failure}

theorem ofProblem {p : Problem} (h : p.location.isSome = true) :
    Points thrown (.ofProblem p) := by
  obtain ⟨l, hl⟩ := Option.isSome_iff_exists.mp h
  rw [Failure.ofProblem, hl]
  exact .placed _ _ _ _ _

/-- A condition that has a place points to it. -/
theorem of_isPlaced (h : f.IsPlaced) : Points thrown f := by
  cases f with
  | condition c l fs o k =>
    obtain ⟨l, rfl⟩ := Option.isSome_iff_exists.mp h
    exact .placed c l fs o k
  | _ => exact .other rfl

theorem typeError (message : String) : Points thrown (.typeError message) := .other rfl

/-- What describing a failure fails with is no condition. -/
theorem of_describe {e : Failure} (h : f.describe = .error e) : Points thrown e := by
  obtain ⟨v, fault, -, -, rfl⟩ := describe_eq_error_iff.mp h
  exact typeError _

/-- What a hook fails with points to the call. -/
theorem ofHook (phase : String) (site : Frame) (fs : List Frame) (f : Failure) (l : Location) :
    Points thrown (.ofHook phase site fs f (some l)) := by
  cases hwords : f.describe with
  | ok reason =>
    rw [ofHook_of_describe hwords]
    exact .placed _ _ _ _ _
  | error e =>
    rw [ofHook_of_describe_eq_error hwords]
    exact of_describe hwords

theorem undefinedCall (m function : String) (arity : Nat) :
    Points thrown (.undefinedCall m function arity) := .other rfl

/-- A failure that speaks of the module being compiled points to a call or to the module. -/
theorem normalize (h : Points thrown f) (m : String) (l : Location) :
    Points thrown (f.normalize m (some l)) := by
  unfold Failure.normalize Failure.notAvailable?
  cases hcall : f.undefinedCall? with
  | none => exact h
  | some call =>
    cases horigin : call.frames.head? with
    | none => simpa [horigin] using h
    | some origin =>
      by_cases hm : origin.module = m
      · cases hplace : origin.location <;> simp [horigin, hm, hplace] <;> exact .placed _ _ _ _ _
      · simpa [horigin, hm] using h

end Failure.Points

/-! ## Runs -/

/-- The stores of a module can be used. -/
structure ModuleState.IsLive (s : ModuleState) : Prop where
  attributes : s.attributes.table.isSome = true
  definitions : s.definitions.table.isSome = true

/-- The module under a ticket is in a phase, and its stores can be used. -/
def World.OpenIn (t : Ticket) (p : Phase) (w : World) : Prop :=
  ∃ e, w.registry.find? t = some e ∧ e.phase = p ∧ e.IsLive

/-- What changes the state of an open module may leave it open in another phase. -/
theorem World.OpenIn.update {t : Ticket} {w : World} {e : ModuleEntry} {p : Phase}
    {f : ModuleState → ModuleState} (he : w.registry.find? t = some e)
    (hphase : (f e.toModuleState).phase = p) (hlive : (f e.toModuleState).IsLive) :
    World.OpenIn t p { w with registry := w.registry.update t f } := by
  refine ⟨e.change f, ?_, hphase, hlive⟩
  simp only [Registry.find?_update, if_true, he, Option.map_some]

namespace Run

variable {α β : Type} {pre : World → Prop} {q : α → World → Prop} {post : β → World → Prop}
  {fault fault' : Failure → World → Prop}

/-- From worlds that satisfy `pre` the run ends with a result and a world that satisfy `post`, or
with a failure and a world that satisfy `fault`, unless it is exhausted. -/
def Leads (pre : World → Prop) (r : Run α) (post : α → World → Prop)
    (fault : Failure → World → Prop) : Prop :=
  ∀ w, pre w → match r w with
    | (.ok a, w') => post a w'
    | (.error (.failed f), w') => fault f w'
    | (.error .exhausted, _) => True

theorem leads_pure {a : α} (h : ∀ w, pre w → q a w) : Leads pre (pure a) q fault := h

theorem leads_fail {f : Failure} (h : ∀ w, pre w → fault f w) :
    Leads pre (fail f : Run α) q fault := h

theorem leads_bind {x : Run α} {f : α → Run β} (hx : Leads pre x q fault)
    (hf : ∀ a, Leads (q a) (f a) post fault) : Leads pre (x >>= f) post fault := by
  intro w hw
  have hxw := hx w hw
  rw [bind_apply]
  rcases hrun : x w with ⟨(f' | _) | a, w'⟩
  · rw [hrun] at hxw
    exact hxw
  · trivial
  · rw [hrun] at hxw
    exact hf a w' hxw

/-- An attempt answers a failure. -/
theorem leads_attempt {r : Run α} (hr : Leads pre r q fault) :
    Leads pre (attempt r) (fun outcome w => match outcome with
      | .ok a => q a w
      | .error f => fault f w) fault' := by
  intro w hw
  have hrw := hr w hw
  unfold attempt
  rcases hrun : r w with ⟨(f | _) | a, w'⟩
  · rw [hrun] at hrw
    exact hrw
  · trivial
  · rw [hrun] at hrw
    exact hrw

theorem Leads.mono {post' : α → World → Prop} {r : Run α} (h : Leads pre r q fault)
    (hpost : ∀ a w, q a w → post' a w) (hfault : ∀ f w, fault f w → fault' f w) :
    Leads pre r post' fault' := by
  intro w hw
  have hrw := h w hw
  rcases hrun : r w with ⟨(f | _) | a, w'⟩
  · rw [hrun] at hrw
    exact hfault f w' hrw
  · trivial
  · rw [hrun] at hrw
    exact hpost a w' hrw

theorem Leads.and {q' : α → World → Prop} {r : Run α} (h : Leads pre r q fault)
    (h' : Leads pre r q' fault') :
    Leads pre r (fun a w => q a w ∧ q' a w) fun f w => fault f w ∧ fault' f w := by
  intro w hw
  have hrw := h w hw
  have hrw' := h' w hw
  rcases hrun : r w with ⟨(f | _) | a, w'⟩
  · rw [hrun] at hrw hrw'
    exact ⟨hrw, hrw'⟩
  · trivial
  · rw [hrun] at hrw hrw'
    exact ⟨hrw, hrw'⟩

/-- What holds of the worlds that a run leaves holds however the run ends. -/
theorem leads_of_world {err : World → Prop} {r : Run α} (h : ∀ w, pre w → err (r w).2) :
    Leads pre r (fun _ => err) fun _ => err := by
  intro w hw
  have hrw := h w hw
  rcases hrun : r w with ⟨(f | _) | a, w'⟩
  · rw [hrun] at hrw
    exact hrw
  · trivial
  · rw [hrun] at hrw
    exact hrw

/-- So does what a conduct leads to. -/
theorem leads_of_within {R : World → World → Prop} {err : World → Prop} {r : Run α}
    (h : Within R r) (herr : ∀ w w', pre w → R w w' → err w') :
    Leads pre r (fun _ => err) fun _ => err := by
  intro w hw
  have hrw := h w
  rcases hrun : r w with ⟨(f | _) | a, w'⟩
  · rw [hrun] at hrw
    exact herr w w' hw (hrw nofun)
  · trivial
  · rw [hrun] at hrw
    exact herr w w' hw (hrw nofun)

theorem Leads.of_settles {err : World → Prop} {r : Run α}
    (h : Leads pre r (fun _ => err) fun _ => err) {w : World} (hw : pre w)
    (hsettles : (r w).1 ≠ .error .exhausted) : err (r w).2 := by
  have hrw := h w hw
  rcases hrun : r w with ⟨(f | _) | a, w'⟩
  · rw [hrun] at hrw
    exact hrw
  · rw [hrun] at hsettles
    exact (hsettles rfl).elim
  · rw [hrun] at hrw
    exact hrw

/-! ## Code -/

/-- Code keeps the module under the ticket open in its phase, and fails as `fault` says. -/
def Abides (fault : Failure → Prop) (t : Ticket) (r : Run α) : Prop :=
  ∀ p, Leads (World.OpenIn t p) r (fun _ => World.OpenIn t p) fun f w => fault f ∧ w.OpenIn t p

section Rules

variable {fault fault' : Failure → Prop} {t : Ticket} {scope : ModuleScope}

theorem abides_pure (a : α) : Abides fault t (pure a) := fun _ _ hw => hw

theorem abides_fail {f : Failure} (h : fault f) : Abides fault t (fail f : Run α) :=
  fun _ _ hw => ⟨h, hw⟩

theorem abides_get : Abides fault t (get : Run World) := fun _ _ hw => hw

theorem abides_bind {x : Run α} {f : α → Run β} (hx : Abides fault t x)
    (hf : ∀ a, Abides fault t (f a)) : Abides fault t (x >>= f) :=
  fun p => leads_bind (hx p) fun a => hf a p

/-- Whatever code fails with can be attempted. -/
theorem abides_attempt {r : Run α} (hr : Abides fault t r) : Abides fault' t (attempt r) := by
  refine fun p => (leads_attempt (hr p)).mono (fun outcome w hw => ?_) fun _ _ h => h
  cases outcome with
  | ok a => exact hw
  | error f => exact hw.2

theorem Abides.mono {r : Run α} (h : Abides fault t r) (hf : ∀ f, fault f → fault' f) :
    Abides fault' t r :=
  fun p => (h p).mono (fun _ _ hw => hw) fun f _ hfault => ⟨hf f hfault.1, hfault.2⟩

/-- What would follow a failure does not matter. -/
theorem abides_fail_bind {f : Failure} (h : fault f) (k : α → Run β) :
    Abides fault t (fail f >>= k) := abides_fail h

theorem abides_emit (e : Event) (answer : List Event → α) : Abides fault t (emit e answer) :=
  fun _ _ hw => hw

/-- What follows an event follows what the host answers to it. -/
theorem abides_bind_emit {e : Event} {answer : List Event → α} {k : α → Run β}
    (h : ∀ log, Abides fault t (k (answer log))) : Abides fault t (emit e answer >>= k) :=
  fun p _ hw => h _ p _ hw

theorem abides_ofFailure {x : Except Failure α} (h : ∀ f, x = .error f → fault f) :
    Abides fault t (ofFailure x) := by
  cases x with
  | ok a => exact abides_pure a
  | error f => exact abides_fail (h f rfl)

theorem abides_ofFailure_of_isPlaced {thrown : Failure → Prop} {x : Except Failure α}
    (h : FailsAs Failure.IsPlaced x) : Abides (Failure.Points thrown) t (ofFailure x) :=
  abides_ofFailure fun f hf => .of_isPlaced (h.kind_of_eq_error f hf)

theorem abides_list_forM {f : α → Run PUnit} (hf : ∀ a, Abides fault t (f a)) (l : List α) :
    Abides fault t (l.forM f) := by
  induction l with
  | nil => exact abides_pure _
  | cons a rest ih => exact abides_bind (hf a) fun _ => ih

theorem abides_option_forM {f : α → Run PUnit} (hf : ∀ a, Abides fault t (f a)) (o : Option α) :
    Abides fault t (o.forM f) := by
  cases o with
  | none => exact abides_pure _
  | some a => exact hf a

/-- The entry of an open module has stores that can be used. -/
theorem abides_bind_entry {f : ModuleEntry → Run β}
    (hf : ∀ e, e.IsLive → Abides fault scope.ticket (f e)) :
    Abides fault scope.ticket (entry scope >>= f) := by
  rintro p w ⟨e, he, hphase, hlive⟩
  rw [bind_apply, entry_apply, he]
  exact hf e hlive p w ⟨e, he, hphase, hlive⟩

theorem abides_liveAttributes {e : ModuleEntry} (h : e.IsLive) :
    Abides fault t (ofCondition e.attributes.live) := by
  obtain ⟨table, htable⟩ := Option.isSome_iff_exists.mp h.attributes
  rw [AttributeStore.live, htable]
  exact abides_pure table

theorem abides_liveDefinitions {e : ModuleEntry} (h : e.IsLive) :
    Abides fault t (ofCondition e.definitions.live) := by
  obtain ⟨table, htable⟩ := Option.isSome_iff_exists.mp h.definitions
  rw [DefinitionStore.live, htable]
  exact abides_pure table

/-- The attributes of an open module can be read. -/
theorem abides_attributes : Abides fault scope.ticket (attributes scope) :=
  abides_bind_entry fun _ he => abides_liveAttributes he

theorem abides_updateEntry {f : ModuleState → ModuleState}
    (hphase : ∀ s, (f s).phase = s.phase) (hlive : ∀ s, s.IsLive → (f s).IsLive) :
    Abides fault scope.ticket (updateEntry scope f) := by
  rintro p w ⟨e, he, rfl, hopen⟩
  exact .update he (hphase _) (hlive _ hopen)

/-- Attributes are changed or refused. -/
theorem abides_changeAttributes {f : AttributeTable → Except Condition AttributeTable}
    (hf : ∀ table c, f table = .error c → fault (.ofProblem { condition := c })) :
    Abides fault scope.ticket (changeAttributes scope (·.modify f)) := by
  rintro p w ⟨e, he, hphase, hlive⟩
  obtain ⟨table, htable⟩ := Option.isSome_iff_exists.mp hlive.attributes
  rw [changeAttributes_apply he htable]
  cases htaken : f table with
  | error c => exact ⟨hf table c htaken, e, he, hphase, hlive⟩
  | ok table' => exact .update he hphase ⟨rfl, hlive.definitions⟩

end Rules
end Run

namespace AttributeTable

variable {t : AttributeTable} {key : String} {c : Condition}

/-- Whatever is refused is refused for its key. -/
theorem isOfAttributes_of_write {v : Value} (h : t.write key v = .error c) :
    c.isOfAttributes = true := by
  unfold write at h
  split at h
  · cases h
    rfl
  · cases h

theorem isOfAttributes_of_delete (h : t.delete key = .error c) : c.isOfAttributes = true := by
  unfold delete at h
  split at h
  · cases h
    rfl
  · cases h

theorem isOfAttributes_of_declare {p : AttributePolicy} (h : t.declare key p = .error c) :
    c.isOfAttributes = true := by
  unfold declare at h
  split at h
  · cases h
    rfl
  · split at h
    · cases h
      rfl
    · cases h

end AttributeTable

/-- A live store refuses a definition at its place. -/
theorem DefinitionStore.isPlaced_define {s : DefinitionStore} {d : Definition}
    (hlive : s.table.isSome = true) : FailsAs Problem.IsPlaced (s.define d) := by
  obtain ⟨module, table⟩ := s
  obtain ⟨t, rfl⟩ := Option.isSome_iff_exists.mp hlive
  refine failsAs_bind ?_ fun _ => failsAs_ok _
  unfold DefinitionTable.define
  split
  · exact failsAs_ok _
  · split
    · exact failsAs_ok _
    · exact failsAs_error (Eq.refl true)

/-- A module that cannot be opened is refused at its place. -/
theorem Registry.isPlaced_openModule (r : Registry) (loaded : Option LoadedModule) (m s : String)
    (l : Location) (d : Bool) : FailsAs Problem.IsPlaced (r.openModule loaded m s l d).2 := by
  unfold Registry.openModule Registry.enrol
  split
  · exact failsAs_error (Eq.refl true)
  · dsimp only
    split
    · exact failsAs_error (Eq.refl true)
    · exact failsAs_ok _

namespace Engine

variable {thrown : Failure → Prop} {g : Engine} {scope : ModuleScope}

/-! ## What code does -/

/-- Hooks keep the modules they are called for open. -/
def FiresAbiding (g : Engine) : Prop :=
  ∀ phase target subject env (scope : ModuleScope),
    Abides (fun _ => True) scope.ticket (g.fire phase target subject env scope)

theorem abides_write (key : String) (v : Value) :
    Abides (Failure.Points thrown) scope.ticket (changeAttributes scope (·.write key v)) :=
  abides_changeAttributes fun _ _ h => .ofAttributes (AttributeTable.isOfAttributes_of_write h)

theorem abides_delete (key : String) :
    Abides (Failure.Points thrown) scope.ticket (changeAttributes scope (·.delete key)) :=
  abides_changeAttributes fun _ _ h => .ofAttributes (AttributeTable.isOfAttributes_of_delete h)

theorem abides_declare (key : String) (p : AttributePolicy) :
    Abides (Failure.Points thrown) scope.ticket (changeAttributes scope (·.declare key p)) :=
  abides_changeAttributes fun _ _ h => .ofAttributes (AttributeTable.isOfAttributes_of_declare h)

theorem abides_updateDocs {fault : Failure → Prop} (f : DocTables → DocTables) :
    Abides fault scope.ticket (updateEntry scope fun s => { s with docs := f s.docs }) :=
  abides_updateEntry (fun _ => rfl) fun _ h => ⟨h.attributes, h.definitions⟩

theorem abides_takeDefinitionDoc (d : Definition) :
    Abides (Failure.Points thrown) scope.ticket (takeDefinitionDoc scope d) := by
  refine abides_bind abides_attributes fun t => ?_
  split
  · exact abides_bind (abides_updateDocs (·.addDefinition _)) fun _ => abides_delete "doc"
  · exact abides_pure _

theorem abides_runBuiltin (name : String) (subject : HookSubject) :
    Abides (Failure.Points thrown) scope.ticket (runBuiltin scope name subject) := by
  unfold runBuiltin
  split
  · cases subject with
    | definition d => exact abides_takeDefinitionDoc d
    | none | artifact a => exact abides_fail (.typeError _)
  · split
    · exact abides_delete "doc"
    · exact abides_fail (.typeError _)

theorem abides_recordLocal (p : NameArity) :
    Abides (Failure.Points thrown) scope.ticket (recordLocal scope p) := by
  rintro q w ⟨e, he, hphase, hlive⟩
  obtain ⟨table, htable⟩ := Option.isSome_iff_exists.mp hlive.definitions
  unfold recordLocal
  rw [bind_apply, entry_apply, he]
  simp only [DefinitionStore.recordLocal, DefinitionStore.live, htable]
  exact .update he hphase ⟨hlive.attributes, rfl⟩

section Calls

variable (hfire : g.FiresAbiding)
include hfire

theorem abides_callHook (phase : HookPhase) (hook : Value) (subject : HookSubject)
    (env : CompileEnv) :
    Abides (fun _ => True) scope.ticket (g.callHook phase hook subject env scope) := by
  unfold callHook
  cases HookTarget.ofValue? phase hook with
  | none => exact abides_fail trivial
  | some target =>
    by_cases hbuiltin : target.module = compilerHookModule
    · simp only [hbuiltin, if_true]
      have hrun : Abides (Failure.Points fun _ => False) scope.ticket
          (runBuiltin scope target.function subject) := abides_runBuiltin target.function subject
      exact abides_bind (hrun.mono fun _ _ => trivial) fun _ => abides_pure _
    · simp only [hbuiltin, if_false]
      exact hfire _ _ _ _ _

/-- **What a hook throws is rejected with the place of the call.** -/
theorem abides_runHook (phase : HookPhase) (subject : HookSubject) (env : CompileEnv)
    (hook : Value) :
    Abides (Failure.Points thrown) scope.ticket (g.runHook phase subject scope env hook) := by
  refine abides_bind (abides_emit _ _) fun _ => ?_
  refine abides_bind (abides_attempt (abides_callHook hfire phase hook subject env)) ?_
  intro outcome
  cases outcome with
  | ok env => exact abides_pure env
  | error f => exact abides_fail (.ofHook ..)

theorem abides_runEach (phase : HookPhase) (subject : HookSubject) (env : CompileEnv)
    (hooks : List Value) :
    Abides (Failure.Points thrown) scope.ticket (g.runEach phase subject scope env hooks) := by
  induction hooks with
  | nil => exact abides_pure ()
  | cons hook rest ih => exact abides_bind (abides_runHook hfire phase subject env hook) fun _ => ih

theorem abides_runThrough (phase : HookPhase) (subject : HookSubject) (env : CompileEnv)
    (hooks : List Value) :
    Abides (Failure.Points thrown) scope.ticket (g.runThrough phase subject scope env hooks) := by
  induction hooks generalizing env with
  | nil => exact abides_pure env
  | cons hook rest ih => exact abides_bind (abides_runHook hfire phase subject env hook) ih

theorem abides_runOnDefinition (env : CompileEnv) (d : Definition) :
    Abides (Failure.Points thrown) scope.ticket (g.runOnDefinition scope env d) :=
  abides_bind abides_attributes fun _ => abides_runEach hfire _ _ _ _

theorem abides_runBeforeCompile (env : CompileEnv) :
    Abides (Failure.Points thrown) scope.ticket (g.runBeforeCompile scope env) :=
  abides_bind abides_attributes fun _ => abides_runThrough hfire _ _ _ _

theorem abides_runAfterCompile (env : CompileEnv) (a : Artifact) :
    Abides (Failure.Points thrown) scope.ticket (g.runAfterCompile scope env a) :=
  abides_bind abides_attributes fun _ =>
    abides_bind (abides_runThrough hfire _ _ _ _) fun _ => abides_pure ()

theorem abides_define (n : NewDefinition) :
    Abides (Failure.Points thrown) scope.ticket (g.define scope n) := by
  rintro p w ⟨e, he, hphase, hlive⟩
  rw [define_eq]
  cases haccept : n.accept scope w with
  | error f =>
    refine ⟨?_, e, he, hphase, hlive⟩
    unfold NewDefinition.accept at haccept
    rw [he] at haccept
    simp only at haccept
    split at haccept
    · split at haccept
      · next q hq =>
        cases haccept
        have hplaced := DefinitionStore.isPlaced_define (d := n.definition scope) hlive.definitions
        exact .ofProblem (hplaced.kind_of_eq_error q hq)
      · cases haccept
    · cases haccept
      exact .placed _ _ _ _ _
  | ok answer =>
    obtain ⟨d, isNew, w₁⟩ := answer
    obtain ⟨e', ds, he', -, hds, rfl⟩ := NewDefinition.accept_eq_ok haccept
    obtain rfl : e = e' := Option.some.inj (he.symm.trans he')
    have htable : ds.table.isSome = true := by
      obtain ⟨_, -, rfl, -, -⟩ := DefinitionStore.define_eq_ok hds
      rfl
    have htaken : World.OpenIn scope.ticket p { w with
        registry := w.registry.update scope.ticket fun s => { s with definitions := ds } } :=
      .update he hphase ⟨hlive.attributes, htable⟩
    cases isNew with
    | false => exact htaken
    | true =>
      have hannounce : Abides (Failure.Points thrown) scope.ticket (g.announce scope n d true) :=
        abides_bind (abides_runOnDefinition hfire _ d) fun _ => abides_pure _
      exact hannounce p _ htaken

end Calls

theorem abides_takePendingDoc (key : String) (form : Value) :
    Abides (Failure.Points thrown) scope.ticket (g.takePendingDoc scope key form) := by
  refine abides_bind abides_attributes fun t => ?_
  split
  · exact abides_bind (abides_delete key) fun _ => abides_pure _
  · exact abides_pure _

theorem abides_putAttribute (key : String) (v : Value) :
    Abides (Failure.Points thrown) scope.ticket (g.putAttribute scope key v) := by
  refine abides_bind (abides_write key v) fun _ => ?_
  cases TypeKind.ofKey? key with
  | some kind =>
    refine abides_bind (abides_takePendingDoc _ v) fun doc => ?_
    cases doc with
    | some d => exact abides_updateDocs (·.addType _)
    | none => exact abides_pure ()
  | none =>
    cases CallbackKind.ofKey? key with
    | some kind =>
      refine abides_bind (abides_takePendingDoc _ v) fun doc => ?_
      cases doc with
      | some d => exact abides_updateDocs (·.addCallback _)
      | none => exact abides_pure ()
    | none => exact abides_pure ()

theorem abides_readAttribute (key : String) :
    Abides (Failure.Points thrown) scope.ticket (readAttribute scope key) :=
  abides_bind abides_attributes fun _ => abides_pure _

/-! ## The pipeline -/

/-- A failure from outside, or one that points to a place; the module is still open. -/
def Faulty (thrown : Failure → Prop) (t : Ticket) (f : Failure) (w : World) : Prop :=
  f.Points thrown ∧ ∃ p, w.OpenIn t p

theorem leads_of_abides {α : Type} {r : Run α} {t : Ticket} {p : Phase}
    (h : Abides (Failure.Points thrown) t r) :
    Leads (World.OpenIn t p) r (fun _ => World.OpenIn t p) (Faulty thrown t) :=
  (h p).mono (fun _ _ hw => hw) fun _ _ hf => ⟨hf.1, p, hf.2⟩

theorem abides_modify {fault : Failure → Prop} {t : Ticket} {f : World → World}
    (h : ∀ w, (f w).registry = w.registry) : Abides fault t (modify f : Run Unit) := by
  rintro p w ⟨e, he, hphase, hlive⟩
  exact ⟨e, by rw [h, he], hphase, hlive⟩

section Pipeline

variable (hthrown : ∀ f, g.host.Throws f → thrown f)
include hthrown

theorem abides_warn {t : Ticket} (m : String) (d : Diagnostic) :
    Abides (Failure.Points thrown) t (Run.warn g.host m d) := by
  refine abides_bind_emit fun log => ?_
  cases hanswer : g.host.warn log with
  | none => exact abides_pure ()
  | some f => exact abides_fail (.thrown (hthrown f (.inl ⟨log, hanswer⟩)))

theorem abides_notify {t : Ticket} (callback m : String) (l : Location) (e : Event) :
    Abides (Failure.Points thrown) t (Run.notify g.host callback m l e) := by
  refine abides_bind (abides_emit e _) fun answer => ?_
  cases answer with
  | some f =>
    refine abides_bind (abides_ofFailure fun e he => .of_describe he) fun reason => ?_
    exact abides_warn hthrown m _
  | none => exact abides_pure ()

variable {o : Opening} {p q : Phase}

/-- A module goes on to the next phase. -/
theorem leads_advance (hnext : p.next? = some q) :
    Leads (World.OpenIn o.scope.ticket p) (g.advance o q)
      (fun _ => World.OpenIn o.scope.ticket q) (Faulty thrown o.scope.ticket) := by
  rintro w ⟨e, he, rfl, hlive⟩
  have hmove : e.phase.advance o.scope.module q = .ok (e.phase, q) := by
    rw [Phase.advance, if_pos hnext]
  unfold advance
  rw [bind_apply, entry_apply, he]
  simp only [hmove]
  have hopen : World.OpenIn o.scope.ticket q { w with
      registry := w.registry.update o.scope.ticket fun s => { s with phase := q } } :=
    .update he rfl ⟨hlive.attributes, hlive.definitions⟩
  have hnotify := abides_notify hthrown (t := o.scope.ticket) "onPhase" o.scope.module o.location
    (.moved o.scope.module (e.phase, q))
  exact leads_of_abides hnotify _ hopen

omit hthrown in
/-- A value that names no pair is refused at the place of the module. -/
theorem points_onLoadRefusal (o : Opening) (v : Value) :
    Failure.Points thrown (onLoadRefusal o v) := by
  unfold onLoadRefusal
  cases v.toText with
  | ok text => exact .placed _ _ _ _ _
  | error fault => exact .typeError _

omit hthrown in
theorem abides_recordOnLoad (vs : List Value) :
    Abides (Failure.Points thrown) o.scope.ticket (recordOnLoad o vs) := by
  induction vs with
  | nil => exact abides_pure ()
  | cons v rest ih =>
    unfold recordOnLoad
    cases onLoadPair? v with
    | none => exact abides_fail_bind (points_onLoadRefusal o v) _
    | some pair => exact abides_bind (abides_option_forM abides_recordLocal pair) fun _ => ih

omit hthrown in
theorem abides_assemble : Abides (Failure.Points thrown) o.scope.ticket (g.assemble o) := by
  refine abides_bind abides_attributes fun t => ?_
  refine abides_bind (abides_recordOnLoad _) fun _ => ?_
  refine abides_bind_entry fun e he => ?_
  refine abides_bind (abides_liveAttributes he) fun attributes => ?_
  refine abides_bind (abides_liveDefinitions he) fun definitions => ?_
  exact abides_ofFailure_of_isPlaced (Assembly.isPlaced_ofTables ..)

omit hthrown in
theorem abides_build (m : Assembly) :
    Abides (Failure.Points thrown) o.scope.ticket (g.build o m) := by
  unfold build
  cases hbuild : m.build with
  | error f =>
    obtain ⟨v, -, rfl⟩ := Assembly.build_eq_error hbuild
    exact abides_fail_bind (.placed _ _ _ _ _) _
  | ok artifact =>
    rw [show ofFailure (.ok artifact) = (pure artifact : Run Artifact) from rfl, pure_bind]
    split
    · refine abides_bind_entry fun e he => ?_
      refine abides_bind (abides_liveAttributes he) fun attributes => ?_
      refine abides_ofFailure fun f hf => ?_
      obtain ⟨reason, cause, rfl⟩ := Artifact.inject_eq_error
        (Assembly.isValidId_of_mem_build hbuild) (Assembly.docs_not_mem_ids_of_build hbuild) hf
      exact .placed _ _ _ _ _
    · exact abides_pure _

theorem abides_produce (a : Artifact) :
    Abides (Failure.Points thrown) o.scope.ticket (g.produce o a) := by
  refine abides_bind (abides_modify fun _ => rfl) fun _ => abides_bind abides_get fun w => ?_
  cases hlistener : g.host.listener with
  | none => exact abides_notify hthrown _ _ _ _
  | some listener =>
    refine abides_bind_emit fun log => ?_
    cases hanswer : listener log with
    | none => exact abides_notify hthrown _ _ _ _
    | some f =>
      have hsaid : g.host.Throws f := .inr (.inl ⟨listener, hlistener, log, hanswer⟩)
      exact abides_fail_bind (.thrown (hthrown f hsaid)) _

theorem abides_load (a : Artifact) :
    Abides (Failure.Points thrown) o.scope.ticket (g.load o a) := by
  unfold load
  cases hloader : g.host.loader with
  | none => exact abides_bind (abides_modify fun _ => rfl) fun _ => abides_pure _
  | some loader =>
    refine abides_bind abides_get fun w => abides_bind_emit fun log => ?_
    rcases hanswer : loader log with f | reason | origin
    · exact abides_fail (.thrown (hthrown f (.inr (.inr ⟨loader, hloader, log, hanswer⟩))))
    · exact abides_fail (.placed _ _ _ _ _)
    · exact abides_pure _

section Life

variable (hfire : g.FiresAbiding) {evaluate : EvaluateBody}
  (hevaluate : ∀ env, Abides (Failure.Points thrown) o.scope.ticket (evaluate env o.scope))
include hfire hevaluate

/-- **The pipeline takes a module from its body to its end**, and whatever stops it points to a
place. -/
theorem leads_live :
    Leads (World.OpenIn o.scope.ticket .evaluating) (g.live o evaluate)
      (fun _ => World.OpenIn o.scope.ticket .afterHooks) (Faulty thrown o.scope.ticket) := by
  refine leads_bind (leads_of_abides (abides_notify hthrown _ _ _ _)) fun _ => ?_
  refine leads_bind (leads_of_abides (hevaluate _)) fun ⟨value, env⟩ => ?_
  refine leads_bind (leads_advance hthrown rfl) fun _ => ?_
  refine leads_bind (leads_of_abides (abides_runBeforeCompile hfire env)) fun env => ?_
  refine leads_bind (leads_advance hthrown rfl) fun _ => ?_
  refine leads_bind (leads_of_abides abides_assemble) fun m => ?_
  refine leads_bind (leads_of_abides (abides_list_forM (abides_warn hthrown _) _)) fun _ => ?_
  refine leads_bind (leads_advance hthrown rfl) fun _ => ?_
  refine leads_bind (leads_of_abides (abides_build m)) fun a => ?_
  refine leads_bind (leads_advance hthrown rfl) fun _ => ?_
  refine leads_bind (leads_of_abides (abides_runAfterCompile hfire env a)) fun _ => ?_
  refine leads_bind (leads_of_abides (abides_produce hthrown a)) fun _ => ?_
  refine leads_bind (leads_of_abides (abides_load hthrown a)) fun loaded => ?_
  exact leads_pure fun _ hw => hw

end Life

/-! ## From opening to closing -/

/-- Whatever the run stops with points to a place; of worlds nothing is said. -/
def Ends {α : Type} (thrown : Failure → Prop) (r : Run α) : Prop :=
  Leads (fun _ => True) r (fun _ _ => True) fun f _ => f.Points thrown

theorem ends_warn (m : String) (d : Diagnostic) : Ends thrown (Run.warn g.host m d) := by
  refine leads_bind (q := fun answer _ => ∃ log, g.host.warn log = answer) ?_ fun answer => ?_
  · exact fun w _ => ⟨_, rfl⟩
  · cases answer with
    | none => exact leads_pure fun _ _ => trivial
    | some f => exact leads_fail fun _ hlog => .thrown (hthrown f (.inl hlog))

theorem ends_notify (callback m : String) (l : Location) (e : Event) :
    Ends thrown (Run.notify g.host callback m l e) := by
  refine leads_bind (q := fun _ _ => True) (fun _ _ => trivial) fun answer => ?_
  cases answer with
  | some f =>
    refine leads_bind (q := fun _ _ => True) ?_ fun reason => ends_warn hthrown m _
    cases hwords : f.describe with
    | ok reason => exact leads_pure fun _ _ => trivial
    | error e => exact leads_fail fun _ _ => .of_describe hwords
  | none => exact leads_pure fun _ _ => trivial

theorem ends_closeModule (fulfilled : Bool) :
    Leads (fun w => ∃ p, w.OpenIn o.scope.ticket p) (g.closeModule o fulfilled)
      (fun _ _ => True) fun f _ => f.Points thrown := by
  have hlast : Ends thrown (do
      modify fun w : World => { w with registry := w.registry.close o.scope.ticket }
      Run.notify g.host "onModuleClose" o.scope.module o.location
        (.closed o.scope.module fulfilled) : Run Unit) :=
    leads_bind (q := fun _ _ => True) (fun _ _ => trivial) fun _ => ends_notify hthrown _ _ _ _
  have hmove (m : Phase.Move) : Ends thrown (g.move o m) :=
    leads_bind (q := fun _ _ => True) (fun _ _ => trivial) fun _ => ends_notify hthrown _ _ _ _
  rintro w ⟨p, e, he, -, -⟩
  unfold closeModule
  rw [bind_apply, entry_apply, he]
  cases hphase : e.phase.close? with
  | none =>
    simp only [hphase]
    exact hlast w trivial
  | some m =>
    simp only [hphase]
    exact leads_bind (hmove m) (fun _ => hlast) w trivial

/-- **What the life of a module ended with points to a place when the module is closed.** -/
theorem ends_conclude (outcome : Except Failure CompiledModule) :
    Leads (fun w => (∀ f, outcome = .error f → f.Points thrown) ∧
        ∃ p, w.OpenIn o.scope.ticket p) (g.conclude o outcome)
      (fun _ _ => True) fun f _ => f.Points thrown := by
  cases outcome with
  | ok c =>
    refine leads_bind (q := fun _ _ => True) ?_ fun _ => leads_pure fun _ _ => trivial
    exact fun w hw => ends_closeModule hthrown true w hw.2
  | error f =>
    have hreject : Leads (fun w => f.Points thrown ∧ ∃ p, w.OpenIn o.scope.ticket p)
        (g.reject (α := CompiledModule) o f) (fun _ _ => False)
        (Faulty thrown o.scope.ticket) := by
      rintro w ⟨hf, p, hw⟩
      refine leads_bind (leads_of_abides (p := p) (abides_notify hthrown _ _ _ _)) ?_ w hw
      exact fun _ => leads_fail fun w hw => ⟨hf.normalize _ _, p, hw⟩
    rintro w ⟨hf, hw⟩
    refine leads_bind (leads_attempt hreject) ?_ w ⟨hf f rfl, hw⟩
    intro rejected
    cases rejected with
    | ok c => exact fun _ hw => hw.elim
    | error f' =>
      rintro w' ⟨hf', hw'⟩
      refine leads_bind (ends_closeModule hthrown false) (fun _ => ?_) w' hw'
      exact leads_fail fun _ _ => hf'

end Pipeline

theorem ends_openModule (hthrown : ∀ f, g.host.Throws f → thrown f) (name : String)
    (env : CompileEnv) : Ends thrown (g.openModule name env) := by
  intro w _
  let location : Location := ⟨Path.relativeTo g.host.options.relativeTo env.file, env.line⟩
  let loaded := if g.host.options.ignoreModuleConflict then none else w.code.get? name
  have hplaced := w.registry.isPlaced_openModule loaded name w.session.id location
    g.host.options.docs
  unfold openModule
  rw [bind_apply, get_apply]
  simp only [location, loaded] at hplaced ⊢
  generalize w.registry.openModule _ _ _ _ _ = answer at hplaced
  obtain ⟨warning, opened⟩ := answer
  have hwarned : Ends thrown (warning.forM (Run.warn g.host name)) := by
    cases warning with
    | none => exact leads_pure fun _ _ => trivial
    | some d => exact ends_warn hthrown name d
  refine leads_bind hwarned (fun _ => ?_) w trivial
  cases opened with
  | error p => exact leads_fail fun _ _ => .ofProblem (hplaced.kind_of_eq_error p rfl)
  | ok answer => exact fun _ _ => trivial

/-- A module that has been opened is open. -/
theorem openIn_opening {name : String} {env : CompileEnv} {w w₁ : World}
    (h : w₁.registry = w.registry.add (g.newEntry name env w)) :
    w₁.OpenIn (g.opening name env w).scope.ticket .evaluating :=
  ⟨_, h ▸ g.find?_opening name env w, rfl, ⟨rfl, rfl⟩⟩

/-- **What a compilation is rejected with points to a place.** -/
theorem ends_compile {evaluate : EvaluateBody} (hthrown : ∀ f, g.host.Throws f → thrown f)
    (hfire : g.FiresAbiding)
    (hevaluate : ∀ env (scope : ModuleScope),
      Abides (Failure.Points thrown) scope.ticket (evaluate env scope))
    (name : String) (env : CompileEnv) : Ends thrown (g.compile name env evaluate) := by
  intro w _
  have hopened := ends_openModule hthrown name env w trivial
  unfold compile
  rw [bind_apply]
  rcases openModule_cases g name env w with ⟨f, ds, hopen, -⟩ | ⟨-, hopen⟩
  · rw [hopen] at hopened ⊢
    exact hopened
  · rw [hopen]
    let o := g.opening name env w
    have hentry : World.OpenIn o.scope.ticket .evaluating { w with
        registry := w.registry.add (g.newEntry name env w)
        log := w.log ++ o.warnings.map (.warned name) } := openIn_opening rfl
    have hlive := leads_live (o := o) hthrown hfire fun env => hevaluate env o.scope
    have hfinish : Leads (World.OpenIn o.scope.ticket .evaluating) (g.finish o evaluate)
        (fun _ _ => True) fun f _ => f.Points thrown := by
      rw [finish_eq]
      refine leads_bind (leads_attempt hlive) fun outcome => ?_
      rintro w' hw'
      refine ends_conclude hthrown outcome w' ?_
      cases outcome with
      | ok c => exact ⟨nofun, .afterHooks, hw'⟩
      | error f =>
        refine ⟨?_, hw'.2⟩
        rintro _ ⟨⟩
        exact hw'.1
    exact hfinish _ hentry

end Engine
end ModuleBuild
