import ModuleBuild.Proofs.Compile.Agreement
import ModuleBuild.Proofs.Compile.Handover
import ModuleBuild.Proofs.Form.Termination

/-! # Hooks after compilation do not reach back

The hooks after compilation get a live scope: they can write attributes, define policies, record
locals and compile other modules.  None of it shows in the module they are called for.  If two
libraries have hooks that behave alike until the module enters the hooks after compilation
(`FormLibrary.AgreesBefore`), both compilations go the same way up to there
(`agreeing_openAndMake`), and what comes later changes neither the artifact nor what else is
answered (`compile_agrees`).
-/
namespace ModuleBuild

open Run

namespace FormLibrary

variable {lib lib' : FormLibrary}

/-! ## Forms use a library for its functions -/

theorem call_congr (hfunctions : lib'.functions = lib.functions) (t : HookTarget)
    (args : List Value) : lib'.call t args = lib.call t args := by
  unfold call function?
  rw [hfunctions]

theorem perform_congr (hfunctions : lib'.functions = lib.functions) (g : Engine)
    (scope : ModuleScope) (line : Option Int) (a : FormAction) :
    a.perform lib' g scope line = a.perform lib g scope line := by
  cases a with
  | call target args => exact call_congr hfunctions target args
  | _ => rfl

mutual

theorem eval_congr (hfunctions : lib'.functions = lib.functions) (g : Engine)
    (scope : ModuleScope) : ∀ f : Form, lib'.eval g scope f = lib.eval g scope f
  | .malformed => rfl
  | .act line a => by
    unfold eval
    rw [perform_congr hfunctions]
  | .module line name body => by
    unfold eval
    have hbody : (fun env scope => lib'.evalBody g (.value .null) env scope body)
        = fun env scope => lib.evalBody g (.value .null) env scope body := by
      funext env inner
      exact evalBody_congr hfunctions g inner (.value .null) env body
    rw [hbody]

theorem evalBody_congr (hfunctions : lib'.functions = lib.functions) (g : Engine)
    (scope : ModuleScope) (value : FormResult) (env : CompileEnv) :
    ∀ body : List Form, lib'.evalBody g value env scope body = lib.evalBody g value env scope body
  | [] => rfl
  | f :: rest => by
    unfold evalBody
    rw [eval_congr hfunctions g scope f]
    congr
    funext value
    exact evalBody_congr hfunctions g scope value (f.leave env) rest

end

theorem runStep_congr (hfunctions : lib'.functions = lib.functions) (g : Engine)
    (phase : HookPhase) (subject : HookSubject) (env : CompileEnv) (scope : ModuleScope)
    (s : HookStep) :
    lib'.runStep g phase subject env scope s = lib.runStep g phase subject env scope s := by
  cases s with
  | evaluate f | attempt f => simp only [runStep, eval_congr hfunctions]
  | stop f | note q => rfl

theorem runSteps_congr (hfunctions : lib'.functions = lib.functions) (g : Engine)
    (phase : HookPhase) (subject : HookSubject) (env : CompileEnv) (scope : ModuleScope)
    (steps : List HookStep) :
    lib'.runSteps g phase subject env scope steps
      = lib.runSteps g phase subject env scope steps := by
  induction steps with
  | nil => rfl
  | cons s rest ih =>
    unfold runSteps
    rw [runStep_congr hfunctions, ih]

theorem respond_congr (hfunctions : lib'.functions = lib.functions) (g : Engine)
    (phase : HookPhase) (target : HookTarget) (subject : HookSubject) (env : CompileEnv)
    (scope : ModuleScope) (answering : Option Hook) :
    lib'.respond g phase target subject env scope answering
      = lib.respond g phase target subject env scope answering := by
  cases answering with
  | none => rfl
  | some hook => simp only [respond, runSteps_congr hfunctions, evalBody_congr hfunctions]

/-! ## Libraries that agree up to the hooks after compilation -/

/-- The libraries have the same functions, and their hooks are the same as long as no module of
the name has entered the hooks after compilation since a start of the log. -/
structure AgreesBefore (lib lib' : FormLibrary) (name : String) (start : List Event) : Prop where
  functions : lib'.functions = lib.functions
  hooks : ∀ target events, (∀ e ∈ events, ¬ e.entersAfterHooks name) →
    lib'.hook? target (start ++ events) = lib.hook? target (start ++ events)

variable {start : List Event} {name : String} {t : Ticket}

theorem libraryLaw_agreeing {g g' : Engine} (hhost : g'.host = g.host) :
    LibraryLaw lib .all g g' (fun _ => agreeing (World.Before start name t))
      fun _ => agreeing (World.Before start name t) where
  host := hhost
  code := scopeLaw_before
  hooks := scopeLaw_before
  define scope n _ hhooks := agreeing_define (codeConduct_before scope.ticket) n hhooks
  compile other env _ _ hfire hevaluate _ :=
    Engine.agreeing_compile hhost hfire hevaluate other env

section Agreeing

variable (hlib : AgreesBefore lib lib' name start) (host : Host)
include hlib

/-- **Hooks agree** however deeply they call each other: the same ones answer, and they do the
same. -/
theorem agreeing_fires (depth : Nat) (scope : ModuleScope) :
    (lib.engine host depth).FiresRelated (lib'.engine host depth) scope
      (agreeing (World.Before start name t)) := by
  induction depth generalizing scope with
  | zero => exact fun _ _ _ _ _ _ => ⟨rfl, fun hne => (hne rfl).elim⟩
  | succ depth ih =>
    intro phase target subject env w hw
    show lib'.fire (lib'.engine host depth) phase target subject env scope w
        = lib.fire (lib.engine host depth) phase target subject env scope w ∧ _
    obtain ⟨events, hlog, hevents⟩ := hw.log
    have hhook : lib'.hook? target w.log = lib.hook? target w.log := by
      rw [hlog]
      exact hlib.hooks target events hevents
    have hhost : (lib'.engine host depth).host = (lib.engine host depth).host := by
      rw [host_engine, host_engine]
    have hL : LibraryLaw lib .all (lib.engine host depth) (lib'.engine host depth)
        (fun _ => agreeing (World.Before start name t))
        fun _ => agreeing (World.Before start name t) := libraryLaw_agreeing hhost
    have hrespond := related_respond hL ih phase target subject env scope
      (lib.hook? target w.log) fun _ _ f _ => Vocabulary.admits_all f
    rw [fire_eq, fire_eq, bind_apply, get_apply]
    simp only [hhook, respond_congr hlib.functions]
    exact hrespond w hw

theorem agreeing_evaluation (depth : Nat) (body : List Form) (env : CompileEnv)
    (scope : ModuleScope) :
    agreeing (World.Before start name t) (lib.evaluation (lib.engine host depth) body env scope)
      (lib'.evaluation (lib'.engine host depth) body env scope) := by
  have hhost : (lib'.engine host depth).host = (lib.engine host depth).host := by
    rw [host_engine, host_engine]
  have hsame : lib'.evaluation (lib'.engine host depth) body env scope
      = lib.evaluation (lib'.engine host depth) body env scope :=
    evalBody_congr hlib.functions _ scope _ env body
  rw [hsame]
  exact related_evalBody (libraryLaw_agreeing hhost) (agreeing_fires hlib host depth) scope _ env
    body fun f _ => Vocabulary.admits_all f

/-- **Up to the hooks after compilation the compilations are the same.** -/
theorem openAndMake_eq (depth : Nat) (env : CompileEnv) (body : List Form) {w : World}
    (hw : w.log = start) :
    (lib'.engine host depth).openAndMake name env (lib'.evaluation (lib'.engine host depth) body) w
      = (lib.engine host depth).openAndMake name env
          (lib.evaluation (lib.engine host depth) body) w := by
  have hfire := agreeing_fires (t := w.registry.entries.length) hlib host depth
  have hevaluate := agreeing_evaluation (t := w.registry.entries.length) hlib host depth body
  have hhost : (lib'.engine host depth).host = (lib.engine host depth).host := by
    rw [host_engine, host_engine]
  generalize lib.evaluation (lib.engine host depth) body = evaluate at hevaluate ⊢
  generalize lib'.evaluation (lib'.engine host depth) body = evaluate' at hevaluate ⊢
  generalize lib.engine host depth = g at hfire hhost ⊢
  generalize lib'.engine host depth = g' at hfire hhost ⊢
  unfold Engine.openAndMake
  rw [bind_apply, bind_apply, Engine.openModule_congr hhost, hhost]
  rcases Engine.openModule_cases g name env w with ⟨f, ds, hopen, -⟩ | ⟨-, hopen⟩
  · rw [hopen]
  · rw [hopen]
    let o := g.opening name env w
    have hbefore : World.Before start name w.registry.entries.length
        { w with
          registry := w.registry.add (g.newEntry name env w)
          log := w.log ++ o.warnings.map (.warned name) } := by
      refine ⟨?_, o.warnings.map (.warned name), by rw [hw], ?_⟩
      · exact (OrderedMap.get?_insert ..).trans (if_pos rfl)
      · exact Event.not_entersAfterHooks_of_warned name name o.warnings
    have hmake : agreeing (World.Before start name w.registry.entries.length)
        (g.make o evaluate) (g'.make o evaluate') :=
      Engine.related_make (scopeLaw_before o.scope) notifyingLaw_agreeing
        (fun target htarget => agreeing_of_within (Engine.within_advance_before (.inr htarget)))
        hhost (hfire o.scope) fun env => hevaluate env o.scope
    have hrest : agreeing (World.Before start name w.registry.entries.length)
        (do
          Run.notify g.host "onModuleOpen" o.scope.module o.location
            (.opened o.scope.module o.location o.scope.env.compiling)
          let made ← g.make o evaluate
          pure (o, made))
        (do
          Run.notify g.host "onModuleOpen" o.scope.module o.location
            (.opened o.scope.module o.location o.scope.env.compiling)
          let made ← g'.make o evaluate'
          pure (o, made)) :=
      agreeing_bind (notifyingLaw_agreeing.notify _ _ _ _ rfl) fun _ =>
        agreeing_bind hmake fun _ => congruence_agreeing.pure _
    exact (hrest _ hbefore).1

end Agreeing

/-! ## What is answered -/

/-- **Hooks after compilation change nothing that is answered.**  If two libraries differ only in
what their hooks do once the module has entered the hooks after compilation, and both compilations
are fulfilled, they answer with the same artifact, exports, location, value and warnings.  In each
of them this artifact is the one that was built, that all hooks after compilation were called
with, that the session has recorded, that the listener was told of and that was loaded, with the
documentation if that is collected. -/
theorem compile_agrees {lib lib' : FormLibrary} {host : Host} {name : String} {env : CompileEnv}
    {body : List Form} {w w₁ w₁' : World} {c c' : CompiledModule}
    (hlib : lib.AgreesBefore lib' name w.log)
    (h : lib.compile host name env body w = (.ok c, w₁))
    (h' : lib'.compile host name env body w = (.ok c', w₁')) :
    (c'.artifact = c.artifact ∧ c'.exports = c.exports ∧ c'.location = c.location ∧
        c'.value = c.value ∧ c'.warnings = c.warnings) ∧
      (lib.engineFor host body).HandsOver name env
        (lib.evaluation (lib.engineFor host body) body) w c w₁ ∧
      (lib'.engineFor host body).HandsOver name env
        (lib'.evaluation (lib'.engineFor host body) body) w c' w₁' := by
  refine ⟨?_, Engine.handsOver_of_compile h, Engine.handsOver_of_compile h'⟩
  -- engines that allow calls as deep as either compilation needs
  let depth := max (lib.depth body) (lib'.depth body)
  have hrun := (settling_engine lib host name body
    (Nat.le_max_left _ _ : lib.depth body ≤ depth) env w).2.trans h
  have hrun' := (settling_engine lib' host name body
    (Nat.le_max_right _ _ : lib'.depth body ≤ depth) env w).2.trans h'
  obtain ⟨o, _, m, _, _, _, _, _, _, _, hmade, -, -, -, -, -, -, -, -, hlocation, hexports, hwarnings⟩ :=
    (Engine.handsOver_of_compile hrun).stages
  obtain ⟨o', _, m', _, _, _, _, _, _, _, hmade', -, -, -, -, -, -, -, -, hlocation', hexports',
    hwarnings'⟩ := (Engine.handsOver_of_compile hrun').stages
  have heq := openAndMake_eq hlib host depth env body rfl
  rw [hmade, hmade'] at heq
  obtain ⟨hmade, -⟩ := Prod.mk.inj heq
  obtain ⟨rfl, hvalue, -, rfl, hartifact⟩ : o' = o ∧ c'.value = c.value ∧ _ ∧ m' = m ∧
      c'.artifact = c.artifact := by
    simpa using Except.ok.inj hmade
  refine ⟨hartifact, ?_, ?_, hvalue, ?_⟩
  · rw [hexports, hexports']
  · rw [hlocation, hlocation']
  · rw [hwarnings, hwarnings']

/-! ## A hook that meddles -/

namespace Meddling

/-- The name under which the hook after compilation is called. -/
def hookName : String := "Late.__after_compile__"

/-- Whether the module has entered the hooks after compilation. -/
def entered (log : List Event) : Bool :=
  log.any fun
    | .moved m (_, .afterHooks) => m = "Early"
    | _ => false

/-- A library whose hook does nothing. -/
def quiet : FormLibrary := ⟨[], [⟨hookName, fun _ => true, ⟨[], none⟩⟩]⟩

/-- A hook that writes over an attribute, deletes another, records a local and compiles a
module. -/
def meddle : Hook where
  steps :=
    [.evaluate (.act none (.write "vsn" (.text "2"))),
      .evaluate (.act none (.delete "moduledoc")),
      .evaluate (.act none (.recordLocal ⟨"f", 0⟩)),
      .evaluate (.module none "Helper" [])]
  expansion := none

/-- A library whose hook does all this after compilation. -/
def loud : FormLibrary := ⟨[], ⟨hookName, entered, meddle⟩ :: quiet.hooks⟩

def host : Host where
  options := .default "/work"
  observe _ := none
  warn _ := none
  listener := none
  loader := none

def env : CompileEnv := ⟨"early", 1, none, none, []⟩

/-- A module with documentation that registers the hook. -/
def body : List Form :=
  [.act none (.write "vsn" (.text "1")), .act none (.write "moduledoc" (.text "Early.")),
    .act none (.write "after_compile" (.text "Late"))]

/-- The world before: nothing is open or loaded. -/
def before : World := ⟨.empty, .empty, ⟨"run", []⟩, []⟩

theorem agreesBefore : quiet.AgreesBefore loud "Early" before.log where
  functions := rfl
  hooks target events hevents := by
    have hentered : entered events = false := by
      refine List.any_eq_false.mpr fun e he => ?_
      cases e with
      | moved m move =>
        obtain ⟨p, q⟩ := move
        cases q with
        | afterHooks =>
          intro hm
          obtain rfl : m = "Early" := of_decide_eq_true hm
          exact hevents _ he ⟨p, rfl⟩
        | _ => exact Bool.false_ne_true
      | _ => exact Bool.false_ne_true
    simp [hook?, loud, quiet, before, hentered]

/-- What is compiled and in which order artifacts are recorded. -/
theorem ends :
    ((quiet.compile host "Early" env body before).1.isOk,
      (quiet.compile host "Early" env body before).2.session.binaries.map Prod.fst)
        = (true, ["Early"]) ∧
    ((loud.compile host "Early" env body before).1.isOk,
      (loud.compile host "Early" env body before).2.session.binaries.map Prod.fst)
        = (true, ["Helper", "Early"]) := by
  decide +kernel

end Meddling

open Meddling in
/-- The hook does its work, and yet the artifact and its documentation are the same. -/
theorem compile_agrees_meddling :
    quiet.AgreesBefore loud "Early" before.log ∧ ∃ c c' w₁ w₁',
      quiet.compile Meddling.host "Early" env body before = (.ok c, w₁) ∧
      loud.compile Meddling.host "Early" env body before = (.ok c', w₁') ∧
      w₁.session.binaries.map Prod.fst = ["Early"] ∧
      w₁'.session.binaries.map Prod.fst = ["Helper", "Early"] ∧
      c'.artifact = c.artifact ∧ (c.artifact.read? Chunk.docsId).isSome = true := by
  obtain ⟨hends, hends'⟩ := Meddling.ends
  rcases hrun : quiet.compile Meddling.host "Early" env body before with ⟨stop | c, w₁⟩
  · rw [hrun] at hends
    cases hends
  rcases hrun' : loud.compile Meddling.host "Early" env body before with ⟨stop | c', w₁'⟩
  · rw [hrun'] at hends'
    cases hends'
  rw [hrun] at hends
  rw [hrun'] at hends'
  obtain ⟨⟨hartifact, -⟩, hhands, -⟩ := compile_agrees Meddling.agreesBefore hrun hrun'
  exact ⟨Meddling.agreesBefore, c, c', w₁, w₁', rfl, rfl, (Prod.mk.inj hends).2,
    (Prod.mk.inj hends').2, hartifact, hhands.docs⟩

end FormLibrary
end ModuleBuild
