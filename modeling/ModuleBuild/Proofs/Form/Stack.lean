import ModuleBuild.Proofs.Compile.Stack
import ModuleBuild.Proofs.Form.Closing

/-! # The stack of modules written in forms

What a compilation of forms hands over is listed along it, however deeply modules are nested and
hooks call each other (`FormLibrary.handings`).  In a compilation that starts with nothing open,
the list of the modules being compiled that is handed over is always that of the modules under way
(`compile_stacks`).  These are all that are open, unless the host has broken the closing of a
module off.
-/
namespace ModuleBuild

open Run

/-! ## What forms hand over -/

/-- What is handed over in an action: to the hooks for a new definition. -/
def FormAction.handings (g : Engine) (fired : Engine.FireHandings) (scope : ModuleScope)
    (line : Option Int) : FormAction → World → List Handing
  | define kind pair clause => g.defineHandings fired scope
    { kind, pair, clauses := clause.toList, line }
  | _ => fun _ => []

namespace FormLibrary

section Handings

variable (lib : FormLibrary) (g : Engine) (fired : Engine.FireHandings)

mutual
/-- What is handed over while a form is evaluated, in the modules nested in it as well. -/
def formHandings (scope : ModuleScope) : Form → World → List Handing
  | .malformed => fun _ => []
  | .act line a => a.handings g fired scope line
  | .module line name body =>
    g.compileHandings fired name { scope.env with line := line.getD scope.env.line }
      (lib.evaluation g body) fun _ scope => bodyHandings scope body

/-- What is handed over while forms are evaluated in turn. -/
def bodyHandings (scope : ModuleScope) : List Form → World → List Handing
  | [], _ => []
  | f :: rest, w => formHandings scope f w ++
    (lib.eval g scope f).after (fun _ => bodyHandings scope rest) w
end

/-- What is handed over in a step of a hook, also if it fails. -/
def stepHandings (scope : ModuleScope) (s : HookStep) (w : World) : List Handing :=
  s.forms.flatMap fun f => lib.formHandings g fired scope f w

/-- What is handed over in the steps of a hook in turn. -/
def stepsHandings (phase : HookPhase) (subject : HookSubject) (env : CompileEnv)
    (scope : ModuleScope) : List HookStep → World → List Handing
  | [], _ => []
  | s :: rest, w => lib.stepHandings g fired scope s w ++
    (lib.runStep g phase subject env scope s).after
      (fun _ => stepsHandings phase subject env scope rest) w

/-- What is handed over by a hook that answers a call. -/
def respondHandings (phase : HookPhase) (target : HookTarget) (subject : HookSubject)
    (env : CompileEnv) (scope : ModuleScope) : Option Hook → World → List Handing
  | none => fun _ => []
  | some hook => (Run.record (.dispatched target phase.arity env.line)).after fun _ w =>
    lib.stepsHandings g fired phase subject env scope hook.steps w ++
      (lib.runSteps g phase subject env scope hook.steps).after
        (fun _ => lib.bodyHandings g fired scope hook.expansion.toList) w

end Handings

/-- What is handed over by the hooks that may call each other to a depth. -/
def firedHandings (lib : FormLibrary) (host : Host) : Nat → Engine.FireHandings
  | 0 => fun _ _ _ _ _ _ => []
  | depth + 1 => fun phase target subject env scope w =>
    lib.respondHandings (lib.engine host depth) (lib.firedHandings host depth) phase target subject
      env scope (lib.hook? target w.log) w

/-- What is handed over in the compilation of a body, and in all that are nested in it. -/
def handings (lib : FormLibrary) (host : Host) (name : String) (env : CompileEnv)
    (body : List Form) : World → List Handing :=
  let g := lib.engineFor host body
  let fired := lib.firedHandings host (lib.depth body)
  g.compileHandings fired name env (lib.evaluation g body) fun _ scope =>
    lib.bodyHandings g fired scope body

/-! ## Forms keep to the stack -/

variable {lib : FormLibrary} {g : Engine} {host : Host} {fired : Engine.FireHandings}
  {stack : List (String × Ticket)}

theorem within_calm_call (target : HookTarget) (args : List Value) :
    Within World.Calm (lib.call target args) :=
  related_call congruence_calm target args (within_calm_emit rfl _)

theorem along_perform (hfire : g.FiresHanding host fired) {scope : ModuleScope}
    (htops : scope.Tops stack) (line : Option Int) (a : FormAction) :
    Along (World.Hands host stack) (fun _ => True) (a.perform lib g scope line)
      (a.handings g fired scope line) := by
  have hR := World.graded_hands host stack
  have hP := entryLaw_calm scope
  have hcalm {α : Type} {r : Run α} (h : within World.Calm r r) :
      Along (World.Hands host stack) (fun _ => True) r fun _ => [] := along_of_calm h
  cases a with
  | define kind pair clause =>
    exact (Engine.along_define hfire htops _).bind hR fun _ _ => along_pure hR trivial
  | write key v =>
    exact hcalm (hP.bind (Engine.related_putAttribute (g := g) hP rfl key v) fun _ => hP.pure v)
  | read key => exact hcalm (Engine.related_readAttribute hP key)
  | declare key policy => exact hcalm (hP.bind (hP.changeAttributes _) fun _ => hP.pure _)
  | delete key => exact hcalm (hP.bind (hP.changeAttributes _) fun _ => hP.pure _)
  | recordLocal pair => exact hcalm (hP.bind (hP.recordLocal pair) fun _ => hP.pure _)
  | call target args => exact hcalm (within_calm_call target args)
  | raise message => exact hcalm (hP.fail _)
  | constant v => exact hcalm (hP.pure v)
  | nothing => exact hcalm (hP.pure _)

mutual

/-- The evaluation of a form keeps to the stack it starts on. -/
theorem along_eval (hhost : g.host = host) (hfire : g.FiresHanding host fired)
    {stack : List (String × Ticket)} {scope : ModuleScope} (htops : scope.Tops stack) : ∀ f : Form,
    Along (World.Hands host stack) (fun _ => True) (lib.eval g scope f)
      (lib.formHandings g fired scope f)
  | .malformed => along_fail (World.graded_hands host stack) _
  | .act line a => by
    unfold eval formHandings
    rw [map_eq_pure_bind]
    have hR := World.graded_hands host stack
    exact (along_perform hfire htops line a).bind hR fun _ _ => along_pure hR trivial
  | .module line name body => by
    unfold eval formHandings
    have hR := World.graded_hands host stack
    -- the nested body runs on top of its own module
    have hbody : Engine.EvaluatesHanding host (lib.evaluation g body) fun _ scope =>
        lib.bodyHandings g fired scope body := fun _ _ htops _ henv =>
      along_evalBody hhost hfire htops (.value .null) henv body
    have henv : Engine.NamesAll stack { scope.env with line := line.getD scope.env.line } :=
      htops.compiling
    have hcompile := Engine.along_compile hfire hbody hhost name henv
    exact hcompile.bind hR fun _ _ => along_pure hR trivial

/-- So do those of forms in turn, and the context that they leave names the same modules. -/
theorem along_evalBody (hhost : g.host = host) (hfire : g.FiresHanding host fired)
    {stack : List (String × Ticket)} {scope : ModuleScope} (htops : scope.Tops stack)
    (value : FormResult) {env : CompileEnv} (henv : Engine.NamesAll stack env) : ∀ body : List Form,
    Along (World.Hands host stack) (fun answer => Engine.NamesAll stack answer.2)
      (lib.evalBody g value env scope body) (lib.bodyHandings g fired scope body)
  | [] => along_pure (World.graded_hands host stack) henv
  | f :: rest => by
    unfold evalBody
    have hleave : Engine.NamesAll stack (f.leave env) := henv
    exact along_bind (World.graded_hands host stack) (along_eval hhost hfire htops f) fun value _ =>
      along_evalBody hhost hfire htops value hleave rest

end

section Hooks

variable (hhost : g.host = host) (hfire : g.FiresHanding host fired)
include hhost hfire

theorem along_runSteps {scope : ModuleScope} (htops : scope.Tops stack) (phase : HookPhase)
    (subject : HookSubject) (env : CompileEnv) (steps : List HookStep) :
    Along (World.Hands host stack) (fun _ => True) (lib.runSteps g phase subject env scope steps)
      (lib.stepsHandings g fired phase subject env scope steps) := by
  have hR := World.graded_hands host stack
  have hnoted (n : Note) : Along (World.Hands host stack) (fun _ => True)
      (Run.record (.noted n)) fun _ => [] :=
    along_of_calm (within_calm_emit rfl _)
  have hstep (s : HookStep) : Along (World.Hands host stack) (fun _ => True)
      (lib.runStep g phase subject env scope s) (lib.stepHandings g fired scope s) := by
    unfold stepHandings
    cases s with
    | evaluate f =>
      simp only [HookStep.forms, List.flatMap_singleton]
      exact (along_eval hhost hfire htops f).bind hR fun _ _ => hnoted _
    | attempt f =>
      simp only [HookStep.forms, List.flatMap_singleton]
      exact (along_attempt (along_eval hhost hfire htops f)).bind hR fun _ _ => hnoted _
    | stop f => exact along_fail hR f
    | note q =>
      have hanswer : Within World.Calm (answer phase subject env scope q) :=
        related_answer congruence_calm phase subject env scope q
      exact (along_of_calm hanswer).bind hR fun _ _ => hnoted _
  induction steps with
  | nil => exact along_pure hR trivial
  | cons s rest ih => exact along_bind hR (hstep s) fun _ _ => ih

theorem along_respond {scope : ModuleScope} (htops : scope.Tops stack) (phase : HookPhase)
    (target : HookTarget) (subject : HookSubject) {env : CompileEnv}
    (henv : Engine.NamesAll stack env) (answering : Option Hook) :
    Along (World.Hands host stack) (Engine.NamesAll stack)
      (lib.respond g phase target subject env scope answering)
      (lib.respondHandings g fired phase target subject env scope answering) := by
  have hR := World.graded_hands host stack
  cases answering with
  | none => exact along_fail hR _
  | some hook =>
    unfold respond respondHandings
    refine along_bind_of_within hR (within_hands_of_calm (within_calm_emit rfl _)) fun _ => ?_
    refine along_bind hR (along_runSteps hhost hfire htops phase subject env _) fun _ _ => ?_
    cases hook.expansion with
    | none => exact along_pure hR henv
    | some f =>
      exact (along_evalBody hhost hfire htops _ henv [f]).bind hR fun _ henv => along_pure hR henv

end Hooks

/-- **Hooks keep to the stack that they are called on**, however deeply they call each other. -/
theorem firesHanding_engine (lib : FormLibrary) (host : Host) (depth : Nat) :
    (lib.engine host depth).FiresHanding host (lib.firedHandings host depth) := by
  induction depth with
  | zero => exact fun _ _ _ _ _ _ _ _ _ hne => (hne rfl).elim
  | succ depth ih =>
    intro stack scope htops phase target subject env henv w hne
    exact along_respond (host_engine depth) ih htops phase target subject henv
      (lib.hook? target w.log) w hne

/-! ## The law -/

/-- **The modules being compiled are those under way.**  A compilation that starts with nothing
open settles, and nothing is under way then.  Whenever the list of the modules being compiled is
handed over in it, or in one nested in it, the list names the modules under way in the order of
their opening, each once and with the module it is handed over for as the last; every opening and
every call of a hook that is logged tells of such a handing.  These are all the modules that are
open, exactly if each of them is under way; one that is not is open because the host broke its
closing off. -/
theorem compile_stacks (lib : FormLibrary) (host : Host) (name : String) {env : CompileEnv}
    (body : List Form) {w : World} (hempty : w.registry.opened.keys = [])
    (houter : env.compiling = []) :
    (lib.compile host name env body w).1 ≠ .error .exhausted ∧
      (lib.compile host name env body w).2.registry.underWay = [] ∧
      w.Tells (lib.handings host name env body w) (lib.compile host name env body w).2 ∧
      ∀ h ∈ lib.handings host name env body w,
        h.compiling = h.world.registry.underWay.map Prod.fst ∧ h.world.registry.InOrder ∧
        h.compiling.Nodup ∧ h.compiling.getLast? = some h.module ∧
        (h.compiling = h.world.registry.opened.keys ↔
          ∀ m t, h.world.registry.opened.get? m = some t → h.world.registry.isUnderWay t = true) ∧
        ∀ m t, h.world.registry.opened.get? m = some t → h.world.registry.isUnderWay t = false →
          ∃ log, log <+: h.world.log ∧ host.BreaksClosing m log := by
  have hne := compile_ne_exhausted lib host name body env w
  have hw : w.Stands host [] := World.stands_of_keys_eq_nil host hempty
  have henv : Engine.NamesAll [] env := houter
  have hhost : (lib.engineFor host body).host = host := host_engine _
  have hfire := lib.firesHanding_engine host (lib.depth body)
  have hbody : Engine.EvaluatesHanding host (lib.evaluation (lib.engineFor host body) body)
      fun _ scope => lib.bodyHandings (lib.engineFor host body)
        (lib.firedHandings host (lib.depth body)) scope body :=
    fun _ _ htops _ henv => along_evalBody hhost hfire htops (.value .null) henv body
  obtain ⟨hfaithful, hw', htells⟩ :=
    (Engine.along_compile hfire hbody hhost name henv w hne).1 hw
  refine ⟨hne, hw'.underWay, htells, fun h hh => ?_⟩
  obtain ⟨stack, hstands, hcompiling, hlast⟩ := hfaithful h hh
  have hunderWay : h.compiling = h.world.registry.underWay.map Prod.fst := by
    rw [hcompiling, hstands.underWay]
  refine ⟨hunderWay, hstands.inOrder, ?_, hlast, ?_, hstands.brokenOff⟩
  · rw [hunderWay]
    exact h.world.registry.nodup_underWay
  · rw [hunderWay]
    exact Registry.underWay_eq_opened_iff

/-! ## A module that is open besides -/

namespace Interrupting

/-- A hook that opens two modules, whatever comes of the first. -/
def opener : FormLibrary :=
  ⟨[], [⟨"Opener.__before_compile__", fun _ => true,
    [.attempt (.module none "First" []), .evaluate (.module none "Second" [])], none⟩]⟩

/-- A module that registers the hook. -/
def outer : List Form := [.act none (.write "before_compile" (.text "Opener"))]

end Interrupting

open Interrupting in
/-- The closing of the first module is broken off, so that it is open besides those which are
named when the second module is opened. -/
theorem compile_stacks_interrupted :
    ∃ h ∈ opener.handings Interrupting.host "Outer" Interrupting.env outer Interrupting.before,
      h.module = "Second" ∧ h.compiling = ["Outer", "Second"] ∧
        h.world.registry.underWay.map Prod.fst = ["Outer", "Second"] ∧
        h.world.registry.opened.keys = ["Outer", "First", "Second"] ∧
        ∃ log, log <+: h.world.log ∧ Interrupting.host.BreaksClosing "First" log := by
  have hempty : Interrupting.before.registry.opened.keys = [] := rfl
  have houter : Interrupting.env.compiling = [] := rfl
  obtain ⟨-, -, -, hall⟩ := compile_stacks opener Interrupting.host "Outer" outer hempty houter
  have hshown : ("Second", ["Outer", "Second"], ["Outer", "First", "Second"]) ∈
      (opener.handings Interrupting.host "Outer" Interrupting.env outer Interrupting.before).map
        fun h => (h.module, h.compiling, h.world.registry.opened.keys) := by
    decide +kernel
  obtain ⟨h, hh, hvalues⟩ := List.mem_map.mp hshown
  simp only [Prod.mk.injEq] at hvalues
  obtain ⟨hmodule, hcompiling, hkeys⟩ := hvalues
  obtain ⟨hunderWay, -, -, -, -, hbroken⟩ := hall h hh
  rw [hcompiling] at hunderWay
  refine ⟨h, hh, hmodule, hcompiling, hunderWay.symm, hkeys, ?_⟩
  have hopen : "First" ∈ h.world.registry.opened.keys := by simp [hkeys]
  obtain ⟨t, ht⟩ := OrderedMap.mem_keys_iff.mp hopen
  refine hbroken "First" t ht (Bool.eq_false_iff.mpr fun hlive => ?_)
  -- were it under way, it would be named
  have hmem : "First" ∈ h.world.registry.underWay.map Prod.fst :=
    List.mem_map.mpr ⟨_, Registry.mem_underWay_iff.mpr ⟨ht, hlive⟩, rfl⟩
  rw [← hunderWay] at hmem
  revert hmem
  decide

end FormLibrary
end ModuleBuild
