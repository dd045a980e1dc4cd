import ModuleBuild.Form.Eval
import ModuleBuild.Proofs.Compile.Pipeline

/-! # What forms and their hooks can do

Forms nest modules in modules, and hooks evaluate forms in the middle of a
compilation.  A law about all of it is a relation of the runs of code, and one of the
runs of hooks, for every ticket: compiling a module must respect them if its body and
its hooks do, and so must a definition if the hooks that it calls do (`LibraryLaw`).
That is what an induction needs: on the forms for the modules nested in a body
(`related_evalBody`), and on the depth of the calls for the hooks (`DepthLaw.fires`).

A law may hold only while modules have certain names and certain pairs are defined; the
`Vocabulary` says which.  `CompileConduct` is the case of a law about worlds.
-/
namespace ModuleBuild

open Run

/-! ## What forms name -/

theorem Form.bodyModuleNames_eq (fs : List Form) :
    bodyModuleNames fs = fs.flatMap moduleNames := by
  induction fs with
  | nil => rfl
  | cons f rest ih => rw [bodyModuleNames, ih, List.flatMap_cons]

theorem Form.bodyDefinedPairs_eq (fs : List Form) :
    bodyDefinedPairs fs = fs.flatMap definedPairs := by
  induction fs with
  | nil => rfl
  | cons f rest ih => rw [bodyDefinedPairs, ih, List.flatMap_cons]

theorem Hook.mem_forms_of_step {h : Hook} {s : HookStep} {f : Form} (hs : s ∈ h.steps)
    (hf : f ∈ s.forms) : f ∈ h.forms :=
  List.mem_append_left _ (List.mem_flatMap.mpr ⟨s, hs, hf⟩)

theorem Hook.mem_forms_of_expansion {h : Hook} {f : Form} (hf : h.expansion = some f) :
    f ∈ h.forms := by
  simp [forms, hf]

/-- The forms of a hook that answers are among those of all hooks. -/
theorem FormLibrary.mem_forms_of_hook? {lib : FormLibrary} {t : HookTarget} {log : List Event}
    {h : Hook} {f : Form} (hh : lib.hook? t log = some h) (hf : f ∈ h.forms) : f ∈ lib.forms := by
  obtain ⟨rule, hrule, rfl⟩ := Option.map_eq_some_iff.mp hh
  exact List.mem_flatMap.mpr ⟨rule, List.mem_of_find?_eq_some hrule, hf⟩

/-- What forms may name: modules and pairs. -/
structure Vocabulary where
  names : String → Prop
  pairs : NameArity → Prop

namespace Vocabulary

/-- All names and all pairs. -/
def all : Vocabulary := ⟨fun _ => True, fun _ => True⟩

/-- The vocabulary has all that a form names, at any depth. -/
def Admits (v : Vocabulary) (f : Form) : Prop :=
  (∀ m ∈ f.moduleNames, v.names m) ∧ ∀ p ∈ f.definedPairs, v.pairs p

theorem admits_all (f : Form) : all.Admits f := ⟨fun _ _ => trivial, fun _ _ => trivial⟩

theorem admits_module {v : Vocabulary} {line : Option Int} {name : String} {body : List Form}
    (h : v.Admits (.module line name body)) : v.names name ∧ ∀ f ∈ body, v.Admits f := by
  simp only [Admits, Form.moduleNames, Form.definedPairs, List.mem_cons,
    Form.bodyModuleNames_eq, Form.bodyDefinedPairs_eq, List.mem_flatMap] at h
  refine ⟨h.1 name (.inl rfl), fun f hf => ⟨fun m hm => ?_, fun p hp => ?_⟩⟩
  · exact h.1 m (.inr ⟨f, hf, hm⟩)
  · exact h.2 p ⟨f, hf, hp⟩

end Vocabulary

/-- Relations of the runs of code and of the runs of hooks under every ticket, which what
forms make of the runs of two engines respects. -/
structure LibraryLaw (lib : FormLibrary) (v : Vocabulary) (g g' : Engine)
    (P Q : Ticket → RunRelation) : Prop where
  host : g'.host = g.host
  code : ∀ scope, ScopeLaw scope (P scope.ticket)
  hooks : ∀ scope, ScopeLaw scope (Q scope.ticket)
  define : ∀ (scope : ModuleScope) (n : Engine.NewDefinition), v.pairs n.pair →
    (∀ env d, Q scope.ticket (g.runOnDefinition scope env d) (g'.runOnDefinition scope env d)) →
    P scope.ticket (g.define scope n) (g'.define scope n)
  compile : ∀ name env body, v.names name →
    (∀ scope : ModuleScope, g.FiresRelated g' scope (Q scope.ticket)) →
    (∀ env (scope : ModuleScope),
      P scope.ticket (lib.evaluation g body env scope) (lib.evaluation g' body env scope)) →
    ∀ t, P t (g.compile name env (lib.evaluation g body))
      (g'.compile name env (lib.evaluation g' body))

namespace FormLibrary

/-- Run the hook that was found for a call, if one was. -/
def respond (lib : FormLibrary) (g : Engine) (phase : HookPhase) (target : HookTarget)
    (subject : HookSubject) (env : CompileEnv) (scope : ModuleScope) :
    Option Hook → Run CompileEnv
  | none => Run.fail (.undefinedCall target.module target.function phase.arity)
  | some hook => do
    Run.record (.dispatched target phase.arity env.line)
    lib.runSteps g phase subject env scope hook.steps
    match hook.expansion with
    | none => pure env
    | some f => do
      let (_, env) ← lib.evalBody g (.value .null) env scope [f]
      pure env

/-- A call is answered by the hook that is found after what has happened. -/
theorem fire_eq (lib : FormLibrary) (g : Engine) (phase : HookPhase) (target : HookTarget)
    (subject : HookSubject) (env : CompileEnv) (scope : ModuleScope) :
    lib.fire g phase target subject env scope = (do
      let w ← get
      lib.respond g phase target subject env scope (lib.hook? target w.log)) := rfl

variable {lib : FormLibrary} {v : Vocabulary} {g g' : Engine} {P Q : Ticket → RunRelation}

/-- A call of a function comes down to the event of it. -/
theorem related_call {R : RunRelation} (hR : R.Congruence) (t : HookTarget) (args : List Value)
    (hcalled : R (Run.record (.called t args)) (Run.record (.called t args))) :
    R (lib.call t args) (lib.call t args) := by
  unfold call
  cases lib.function? t with
  | none => exact hR.fail _
  | some answer => exact hR.bind hcalled fun _ => hR.ofFailure answer

theorem related_answer {R : RunRelation} (hR : R.Congruence) (phase : HookPhase)
    (subject : HookSubject) (env : CompileEnv) (scope : ModuleScope) (q : HookQuery) :
    R (answer phase subject env scope q) (answer phase subject env scope q) := by
  cases q with
  | contexts | arguments | chunks => exact hR.pure _
  | scope => exact hR.bind (hR.entry scope) fun _ => hR.pure _
  | openState module => exact hR.bind hR.get fun _ => hR.pure _
  | attributeState module key => exact hR.bind hR.get fun _ => hR.pure _

section Actions

variable (hL : LibraryLaw lib v g g' P Q) (scope : ModuleScope)
include hL

theorem related_perform (hfire : g.FiresRelated g' scope (Q scope.ticket)) (line : Option Int)
    (a : FormAction) (ha : ∀ p ∈ a.definedPairs, v.pairs p) :
    P scope.ticket (a.perform lib g scope line) (a.perform lib g' scope line) := by
  have hP := hL.code scope
  cases a with
  | define kind pair clause =>
    refine hP.bind (hL.define scope _ ?_ fun env d => ?_) fun _ => hP.pure _
    · exact ha pair (List.mem_singleton_self pair)
    · exact Engine.related_runOnDefinition (hL.hooks scope) hfire env d
  | write key w =>
    exact hP.bind (Engine.related_putAttribute hP.entryLaw hL.host key w) fun _ => hP.pure w
  | read key => exact Engine.related_readAttribute hP.entryLaw key
  | declare key policy => exact hP.bind (hP.changeAttributes _) fun _ => hP.pure _
  | delete key => exact hP.bind (hP.changeAttributes _) fun _ => hP.pure _
  | recordLocal pair => exact hP.bind (hP.recordLocal pair) fun _ => hP.pure _
  | call target args => exact related_call hP.toCongruence target args (hP.record _ rfl)
  | raise message => exact hP.fail _
  | constant w => exact hP.pure w
  | nothing => exact hP.pure _

end Actions

mutual

/-- The evaluations of a form are related by the law of the module it stands in. -/
theorem related_eval (hL : LibraryLaw lib v g g' P Q)
    (hfire : ∀ scope : ModuleScope, g.FiresRelated g' scope (Q scope.ticket))
    (scope : ModuleScope) :
    ∀ f : Form, v.Admits f → P scope.ticket (lib.eval g scope f) (lib.eval g' scope f)
  | .malformed, _ => (hL.code scope).fail _
  | .act line a, ha => by
    unfold eval
    exact (hL.code scope).map _ (related_perform hL scope (hfire scope) line a ha.2)
  | .module line name body, hm => by
    unfold eval
    obtain ⟨hname, hbody⟩ := Vocabulary.admits_module hm
    -- the nested body runs in a scope of its own
    have hevaluate (env : CompileEnv) (inner : ModuleScope) :
        P inner.ticket (lib.evaluation g body env inner) (lib.evaluation g' body env inner) :=
      related_evalBody hL hfire inner (.value .null) env body hbody
    exact (hL.code scope).bind (hL.compile name _ body hname hfire hevaluate scope.ticket)
      fun _ => (hL.code scope).pure _

/-- So are those of forms in turn. -/
theorem related_evalBody (hL : LibraryLaw lib v g g' P Q)
    (hfire : ∀ scope : ModuleScope, g.FiresRelated g' scope (Q scope.ticket))
    (scope : ModuleScope) (value : FormResult) (env : CompileEnv) :
    ∀ body : List Form, (∀ f ∈ body, v.Admits f) →
      P scope.ticket (lib.evalBody g value env scope body) (lib.evalBody g' value env scope body)
  | [], _ => (hL.code scope).pure _
  | f :: rest, hbody => by
    unfold evalBody
    obtain ⟨hf, hrest⟩ := List.forall_mem_cons.mp hbody
    exact (hL.code scope).bind (related_eval hL hfire scope f hf) fun value =>
      related_evalBody hL hfire scope value (f.leave env) rest hrest

end

section Hooks

variable (hL : LibraryLaw lib v g g' P Q)
include hL

variable (hfire : ∀ scope : ModuleScope, g.FiresRelated g' scope (Q scope.ticket))
include hfire

theorem related_runStep (phase : HookPhase) (subject : HookSubject) (env : CompileEnv)
    (scope : ModuleScope) (s : HookStep) (hs : ∀ f ∈ s.forms, v.Admits f) :
    P scope.ticket (lib.runStep g phase subject env scope s)
      (lib.runStep g' phase subject env scope s) := by
  have hP := hL.code scope
  cases s with
  | evaluate f =>
    have hf := related_eval hL hfire scope f (hs f (List.mem_singleton_self f))
    exact hP.bind hf fun _ => hP.record _ rfl
  | attempt f =>
    have hf := related_eval hL hfire scope f (hs f (List.mem_singleton_self f))
    exact hP.bind (hP.attempt hf) fun _ => hP.record _ rfl
  | stop f => exact hP.fail f
  | note q =>
    have hanswer := related_answer hP.toCongruence phase subject env scope q
    exact hP.bind hanswer fun _ => hP.record _ rfl

theorem related_runSteps (phase : HookPhase) (subject : HookSubject) (env : CompileEnv)
    (scope : ModuleScope) (steps : List HookStep)
    (hsteps : ∀ s ∈ steps, ∀ f ∈ s.forms, v.Admits f) :
    P scope.ticket (lib.runSteps g phase subject env scope steps)
      (lib.runSteps g' phase subject env scope steps) := by
  have hP := hL.code scope
  induction steps with
  | nil => exact hP.pure ()
  | cons s rest ih =>
    have hs := related_runStep hL hfire phase subject env scope s
      (hsteps s List.mem_cons_self)
    exact hP.bind hs fun _ => ih fun s hs => hsteps s (List.mem_cons_of_mem _ hs)

/-- The answers to a call are related if the hook that answers is admitted. -/
theorem related_respond (phase : HookPhase) (target : HookTarget) (subject : HookSubject)
    (env : CompileEnv) (scope : ModuleScope) (answering : Option Hook)
    (hforms : ∀ hook ∈ answering, ∀ f ∈ hook.forms, v.Admits f) :
    P scope.ticket (lib.respond g phase target subject env scope answering)
      (lib.respond g' phase target subject env scope answering) := by
  have hP := hL.code scope
  cases answering with
  | none => exact hP.fail _
  | some hook =>
    have hadmits : ∀ f ∈ hook.forms, v.Admits f := hforms hook rfl
    have hsteps : ∀ s ∈ hook.steps, ∀ f ∈ s.forms, v.Admits f := fun s hs f hf =>
      hadmits f (Hook.mem_forms_of_step hs hf)
    refine hP.bind (hP.record _ rfl) fun _ => ?_
    refine hP.bind (related_runSteps hL hfire phase subject env scope _ hsteps) fun _ => ?_
    cases hexpansion : hook.expansion with
    | none => exact hP.pure env
    | some f =>
      have hf : ∀ f' ∈ [f], v.Admits f' := fun f' hf' =>
        hadmits f' (Hook.mem_forms_of_expansion (List.mem_singleton.mp hf' ▸ hexpansion))
      exact hP.bind (related_evalBody hL hfire scope _ env [f] hf) fun _ => hP.pure _

theorem related_fire (hforms : ∀ f ∈ lib.forms, v.Admits f) (phase : HookPhase)
    (target : HookTarget) (subject : HookSubject) (env : CompileEnv) (scope : ModuleScope) :
    P scope.ticket (lib.fire g phase target subject env scope)
      (lib.fire g' phase target subject env scope) := by
  have hP := hL.code scope
  rw [fire_eq, fire_eq]
  refine hP.bind hP.get fun w => ?_
  exact related_respond hL hfire phase target subject env scope _ fun hook hhook f hf =>
    hforms f (mem_forms_of_hook? hhook hf)

end Hooks

@[simp] theorem host_engine {host : Host} (depth : Nat) :
    (lib.engine host depth).host = host := by
  cases depth <;> rfl

end FormLibrary

/-! ## Hooks that call each other -/

/-- Laws for engines of every depth, compared with engines that are deeper: what holds of
the code at a depth holds of the hooks that are called one level above. -/
structure DepthLaw (lib : FormLibrary) (host : Host) (v : Vocabulary) (more : Nat)
    (P Q : Nat → Ticket → RunRelation) : Prop where
  forms : ∀ f ∈ lib.forms, v.Admits f
  library : ∀ depth, LibraryLaw lib v (lib.engine host depth) (lib.engine host (more + depth))
    (P depth) (Q depth)
  exhausted : ∀ t {α : Type} (r : Run α), Q 0 t (throw .exhausted) r
  descend : ∀ depth t {α : Type} {r r' : Run α}, P depth t r r' → Q (depth + 1) t r r'

namespace DepthLaw

variable {lib : FormLibrary} {host : Host} {v : Vocabulary} {more : Nat}
  {P Q : Nat → Ticket → RunRelation} (hL : DepthLaw lib host v more P Q)
include hL

/-- **Hooks respect the law of the module they are called for**, however deeply they call
each other. -/
theorem fires (depth : Nat) (scope : ModuleScope) :
    (lib.engine host depth).FiresRelated (lib.engine host (more + depth)) scope
      (Q depth scope.ticket) := by
  induction depth generalizing scope with
  | zero => exact fun _ _ _ _ => hL.exhausted _ _
  | succ depth ih =>
    intro phase target subject env
    exact hL.descend depth _
      (FormLibrary.related_fire (hL.library depth) ih hL.forms phase target subject env scope)

/-- **So does the evaluation of forms.** -/
theorem evalBody (depth : Nat) (scope : ModuleScope) (value : FormResult) (env : CompileEnv)
    {body : List Form} (hbody : ∀ f ∈ body, v.Admits f) :
    P depth scope.ticket (lib.evalBody (lib.engine host depth) value env scope body)
      (lib.evalBody (lib.engine host (more + depth)) value env scope body) :=
  FormLibrary.related_evalBody (hL.library depth) (hL.fires depth) scope value env body hbody

/-- **So does the compilation of a module.** -/
theorem compile (depth : Nat) {name : String} (hname : v.names name) (env : CompileEnv)
    {body : List Form} (hbody : ∀ f ∈ body, v.Admits f) (t : Ticket) :
    P depth t
      ((lib.engine host depth).compile name env (lib.evaluation (lib.engine host depth) body))
      ((lib.engine host (more + depth)).compile name env
        (lib.evaluation (lib.engine host (more + depth)) body)) :=
  (hL.library depth).compile name env body hname (hL.fires depth)
    (fun env scope => hL.evalBody depth scope _ env hbody) t

end DepthLaw

/-! ## Laws about worlds -/

/-- A conduct for the code under every ticket that compilations stay within. -/
structure CompileConduct (host : Host) (R : Ticket → World → World → Prop) : Prop where
  scope : ∀ t, CodeConduct t (R t)
  compile : ∀ (g : Engine) (evaluate : EvaluateBody), g.host = host →
    (∀ scope, g.FiresWithin scope (R scope.ticket)) →
    (∀ env scope, Within (R scope.ticket) (evaluate env scope)) →
    ∀ name env t, Within (R t) (g.compile name env evaluate)

namespace FormLibrary

variable {lib : FormLibrary} {host : Host} {R : Ticket → World → World → Prop}
  (hR : CompileConduct host R)
include hR

theorem libraryLaw_of_conduct {g : Engine} (g' : Engine) (hhost : g.host = host)
    (hhost' : g'.host = g.host) :
    LibraryLaw lib .all g g' (fun t => within (R t)) fun t => within (R t) where
  host := hhost'
  code scope := (hR.scope scope.ticket).scopeLaw
  hooks scope := (hR.scope scope.ticket).scopeLaw
  define scope n _ hhooks := (hR.scope scope.ticket).within_define hhooks n
  compile name env body _ hfire hevaluate t :=
    hR.compile g (lib.evaluation g body) hhost hfire hevaluate name env t

/-- Forms in turn stay within the conduct of the module they stand in. -/
theorem within_evalBody {g : Engine} (hhost : g.host = host)
    (hfire : ∀ scope, g.FiresWithin scope (R scope.ticket)) (scope : ModuleScope)
    (value : FormResult) (env : CompileEnv) (body : List Form) :
    Within (R scope.ticket) (lib.evalBody g value env scope body) :=
  related_evalBody (libraryLaw_of_conduct hR g hhost rfl) hfire scope value env body
    fun f _ => Vocabulary.admits_all f

/-- **Hooks stay within the conduct of the module they are called for**, however
deeply they call each other. -/
theorem firesWithin_engine (depth : Nat) (scope : ModuleScope) :
    (lib.engine host depth).FiresWithin scope (R scope.ticket) := by
  have hL : DepthLaw lib host .all 0 (fun _ t => within (R t)) fun _ t => within (R t) :=
    { forms := fun f _ => Vocabulary.admits_all f
      library := fun depth => libraryLaw_of_conduct hR _ (host_engine depth) (by simp)
      -- no call is left: the run is exhausted, of which nothing is said
      exhausted := fun _ _ _ _ hw => (hw rfl).elim
      descend := fun _ _ _ _ _ h => h }
  exact hL.fires depth scope

end FormLibrary
end ModuleBuild
