import ModuleBuild.Proofs.Compile.Rejection
import ModuleBuild.Proofs.Form.Isolation

/-! # Rejections of modules written in forms

Whatever the body of a module and its hooks do, and however deeply modules and hooks nest, the
module stays open in its phase while they run (`abides_evalBody`, `firesAbiding_engine`).  So a
compilation is rejected with a condition that has a place, but for two conditions of attribute
stores (`compile_rejection`).
-/
namespace ModuleBuild

open Run

namespace FormLibrary

/-- What a function of the library throws. -/
def Throws (lib : FormLibrary) (f : Failure) : Prop := ∃ t, lib.function? t = some (.error f)

variable {lib : FormLibrary} {g : Engine} {thrown : Failure → Prop}

/-- A compilation leaves its caller's module open. -/
theorem abides_of_ends {α : Type} {t : Ticket} {r : Run α} (hends : Engine.Ends thrown r)
    (hleaves : Within (World.Leaves none) r) : Abides (Failure.Points thrown) t r := by
  rintro p w ⟨e, he, hphase, hlive⟩
  have hends := hends w trivial
  have hleaves := hleaves w
  rcases hrun : r w with ⟨(f | _) | a, w'⟩
  · rw [hrun] at hends hleaves
    exact ⟨hends, e, (hleaves nofun).find? he, hphase, hlive⟩
  · trivial
  · rw [hrun] at hleaves
    exact ⟨e, (hleaves nofun).find? he, hphase, hlive⟩

/-- What evaluation relies on: what is thrown from outside may be thrown, and hooks and nested
modules keep open what was open. -/
structure RejectionLaw (lib : FormLibrary) (g : Engine) (thrown : Failure → Prop) : Prop where
  library : ∀ f, lib.Throws f → thrown f
  host : ∀ f, g.host.Throws f → thrown f
  fire : g.FiresAbiding
  nested : ∀ name env body,
    Within (World.Leaves none) (g.compile name env (lib.evaluation g body))

theorem abides_call (hL : RejectionLaw lib g thrown) {t : Ticket} (target : HookTarget)
    (args : List Value) : Abides (Failure.Points thrown) t (lib.call target args) := by
  unfold call
  cases hanswer : lib.function? target with
  | none => exact abides_fail (.undefinedCall ..)
  | some answer =>
    refine abides_bind (abides_emit _ _) fun _ => abides_ofFailure fun f hf => ?_
    exact .thrown (hL.library f ⟨target, by rw [hanswer, hf]⟩)

theorem abides_perform (hL : RejectionLaw lib g thrown) (scope : ModuleScope) (line : Option Int)
    (a : FormAction) :
    Abides (Failure.Points thrown) scope.ticket (a.perform lib g scope line) := by
  cases a with
  | define kind pair clause =>
    exact abides_bind (Engine.abides_define hL.fire _) fun _ => abides_pure _
  | write key v => exact abides_bind (Engine.abides_putAttribute key v) fun _ => abides_pure _
  | read key => exact Engine.abides_readAttribute key
  | declare key policy =>
    exact abides_bind (Engine.abides_declare key policy) fun _ => abides_pure _
  | delete key => exact abides_bind (Engine.abides_delete key) fun _ => abides_pure _
  | recordLocal pair => exact abides_bind (Engine.abides_recordLocal pair) fun _ => abides_pure _
  | call target args => exact abides_call hL target args
  | raise message => exact abides_fail (.other rfl)
  | constant v => exact abides_pure v
  | nothing => exact abides_pure _

mutual

/-- A form keeps the module it stands in open. -/
theorem abides_eval (hL : RejectionLaw lib g thrown) (scope : ModuleScope) :
    ∀ f : Form, Abides (Failure.Points thrown) scope.ticket (lib.eval g scope f)
  | .malformed => abides_fail (.typeError _)
  | .act line a => by
    unfold eval
    rw [map_eq_pure_bind]
    exact abides_bind (abides_perform hL scope line a) fun _ => abides_pure _
  | .module line name body => by
    unfold eval
    -- the nested module is compiled in an entry of its own
    have hends (env : CompileEnv) : Engine.Ends thrown (g.compile name env
        (lib.evaluation g body)) :=
      Engine.ends_compile hL.host hL.fire
        (fun env inner => abides_evalBody hL inner (.value .null) env body) name env
    exact abides_bind (abides_of_ends (hends _) (hL.nested name _ body)) fun _ => abides_pure _

/-- So do forms in turn. -/
theorem abides_evalBody (hL : RejectionLaw lib g thrown) (scope : ModuleScope)
    (value : FormResult) (env : CompileEnv) :
    ∀ body : List Form,
      Abides (Failure.Points thrown) scope.ticket (lib.evalBody g value env scope body)
  | [] => abides_pure _
  | f :: rest => by
    unfold evalBody
    exact abides_bind (abides_eval hL scope f) fun value =>
      abides_evalBody hL scope value (f.leave env) rest

end

/-! ## Hooks -/

theorem abides_runStep (hL : RejectionLaw lib g thrown) (phase : HookPhase)
    (subject : HookSubject) (env : CompileEnv) (scope : ModuleScope) (s : HookStep) :
    Abides (fun _ => True) scope.ticket (lib.runStep g phase subject env scope s) := by
  have heval (f : Form) : Abides (fun _ => True) scope.ticket (lib.eval g scope f) :=
    (abides_eval hL scope f).mono fun _ _ => trivial
  cases s with
  | evaluate f => exact abides_bind (heval f) fun _ => abides_emit _ _
  | attempt f => exact abides_bind (abides_attempt (heval f)) fun _ => abides_emit _ _
  | stop f => exact abides_fail trivial
  | note q =>
    refine abides_bind ?_ fun _ => abides_emit _ _
    cases q with
    | contexts | arguments | chunks => exact abides_pure _
    | scope => exact abides_bind_entry fun _ _ => abides_pure _
    | openState module => exact abides_bind abides_get fun _ => abides_pure _
    | attributeState module key => exact abides_bind abides_get fun _ => abides_pure _

theorem abides_respond (hL : RejectionLaw lib g thrown) (phase : HookPhase)
    (target : HookTarget) (subject : HookSubject) (env : CompileEnv) (scope : ModuleScope)
    (answering : Option Hook) :
    Abides (fun _ => True) scope.ticket
      (lib.respond g phase target subject env scope answering) := by
  cases answering with
  | none => exact abides_fail trivial
  | some hook =>
    have hsteps (steps : List HookStep) :
        Abides (fun _ => True) scope.ticket (lib.runSteps g phase subject env scope steps) := by
      induction steps with
      | nil => exact abides_pure ()
      | cons s rest ih =>
        exact abides_bind (abides_runStep hL phase subject env scope s) fun _ => ih
    refine abides_bind (abides_emit _ _) fun _ => abides_bind (hsteps _) fun _ => ?_
    cases hook.expansion with
    | none => exact abides_pure env
    | some f =>
      have hbody := abides_evalBody hL scope (.value .null) env [f]
      exact abides_bind (hbody.mono fun _ _ => trivial) fun _ => abides_pure _

/-- **Hooks keep the modules they are called for open**, however deeply they call each other. -/
theorem firesAbiding_engine (lib : FormLibrary) (host : Host) (depth : Nat) :
    (lib.engine host depth).FiresAbiding := by
  induction depth with
  | zero => exact fun _ _ _ _ _ _ _ _ => trivial
  | succ depth ih =>
    intro phase target subject env scope
    refine abides_bind abides_get fun w => ?_
    have hL : RejectionLaw lib (lib.engine host depth) fun _ => True :=
      ⟨fun _ _ => trivial, fun _ _ => trivial, ih, lib.nested_leaves host depth⟩
    exact abides_respond hL phase target subject env scope _

/-- **A condition that a compilation is rejected with has a place**, and its message ends with
it, but for the conditions of attribute stores and for what is thrown from outside. -/
theorem compile_rejection {lib : FormLibrary} {host : Host} {name : String} {env : CompileEnv}
    {body : List Form} {w w' : World} {c : Condition} {l : Option Location} {frames : List Frame}
    {origin : Option Frame} {cause : Cause}
    (h : lib.compile host name env body w =
      (.error (.failed (.condition c l frames origin cause)), w')) :
    (∃ place, l = some place ∧
        (Failure.condition c l frames origin cause).message
          = .ok (c.detail ++ " at " ++ place.text)) ∨
      (l = none ∧ c.isOfAttributes = true) ∨
      lib.Throws (.condition c l frames origin cause) ∨
      host.Throws (.condition c l frames origin cause) := by
  let g := lib.engineFor host body
  let thrown : Failure → Prop := fun f => lib.Throws f ∨ host.Throws f
  have hhost : g.host = host := host_engine (lib.depth body)
  have hL : RejectionLaw lib g thrown := {
    library := fun _ => .inl
    host := fun f hf => .inr (hhost ▸ hf)
    fire := lib.firesAbiding_engine host (lib.depth body)
    nested := lib.nested_leaves host (lib.depth body) }
  have hends : Engine.Ends thrown (g.compile name env (lib.evaluation g body)) :=
    Engine.ends_compile hL.host hL.fire
      (fun env scope => abides_evalBody hL scope (.value .null) env body) name env
  have hpoints := hends w trivial
  rw [show g.compile name env (lib.evaluation g body) w = _ from h] at hpoints
  cases hpoints with
  | placed _ place => exact .inl ⟨place, rfl, congrArg Except.ok (String.append_assoc ..).symm⟩
  | ofAttributes hc => exact .inr (.inl ⟨rfl, hc⟩)
  | other hf => cases hf
  | thrown hf => exact .inr (.inr hf)

end FormLibrary

namespace ReservedKey

def library : FormLibrary := ⟨[], []⟩

def host : Host where
  options := .default "/work"
  observe _ := none
  warn _ := none
  listener := none
  loader := none

/-- A module that writes a key of the compiler's own. -/
def body : List Form := [.act none (.write "$x" .null)]

def env : CompileEnv := ⟨"lib/keys", 1, none, none, []⟩

def before : World := ⟨.empty, .empty, ⟨"run", []⟩, []⟩

end ReservedKey

open ReservedKey in
theorem FormLibrary.compile_rejection_reserved :
    ∃ w', library.compile host "Keys" env body before =
        (.error (.failed (.condition (.keyReserved "$x") none [] none .none)), w') ∧
      ¬ library.Throws (.condition (.keyReserved "$x") none [] none .none) ∧
      (Condition.keyReserved "$x").isOfAttributes = true := by
  have hrun : library.compile host "Keys" env body before =
      (.error (.failed (.condition (.keyReserved "$x") none [] none .none)),
        (library.compile host "Keys" env body before).2) := by rfl
  rcases compile_rejection hrun with ⟨place, hplace, -⟩ | ⟨-, hc⟩ | ⟨t, ht⟩ | hhost
  · cases hplace
  · exact ⟨_, hrun, (fun ⟨t, ht⟩ => nomatch ht), hc⟩
  · cases ht
  · obtain ⟨log, hlog⟩ | ⟨listener, hlistener, -⟩ | ⟨loader, hloader, -⟩ := hhost
    · cases hlog
    · cases hlistener
    · cases hloader

end ModuleBuild
