import ModuleBuild.Proofs.Compile.Portability
import ModuleBuild.Proofs.Form.DefinitionWindow
import ModuleBuild.Proofs.Form.Termination
import ModuleBuild.Proofs.Path

/-! # Compilations wherever the sources lie

A module whose file is named by an absolute path, below the directory that places are relative to,
is compiled in the same way wherever the directory lies (`compile_portable`): bodies and hooks run
in lockstep (`lockstep_evalBody`, `relocated_engine`).  What is answered is the same but for the
places of definitions and of hook calls, which keep the name of the file as it was given: they show
in the chunk that keeps the definitions with their places, and in the conditions that name such a
place (`Code.namesFile`).
-/
namespace ModuleBuild

open Run

variable {r : Relocation}

/-! ## What is the same -/

/-- The conditions that name the place of a definition or of a hook call. -/
def Code.namesFile : Code → Bool
  | .internalOverridden | .kindClash | .definitionsClosed | .hookFailed => true
  | _ => false

/-- The place that a failure names. -/
def Failure.location? : Failure → Option Location
  | .condition _ l _ _ _ => l
  | _ => none

/-- Failures of one code that say the same at the same place, unless it is that of a condition
which names places in the file.  Then they point to one line of the file, and they differ in what
they say only if they speak of an earlier definition or of what a hook failed with. -/
structure Failure.SameButFile (r : Relocation) (f f' : Failure) : Prop where
  code : f'.code? = f.code?
  same : (∀ c ∈ f.code?, c.namesFile = false) →
    f'.message = f.message ∧ f'.location? = f.location?
  place : Option.Rel (Location.Relocated r) f.location? f'.location?
  words : f.code? ≠ some .kindClash → f.code? ≠ some .hookFailed → f'.describe = f.describe

/-- Compiled modules that are the same but for the chunk of definitions with their places. -/
structure CompiledModule.SameButFile (c c' : CompiledModule) : Prop where
  module : c'.module = c.module
  location : c'.location = c.location
  exports : c'.exports = c.exports
  warnings : c'.warnings = c.warnings
  ids : c'.artifact.ids = c.artifact.ids
  chunks : ∀ id, id ≠ Chunk.definitionsId → c'.artifact.read? id = c.artifact.read? id
  artifact : Chunk.definitionsId ∉ c.artifact.ids → c'.artifact = c.artifact

theorem Failure.Relocated.sameButFile {f f' : Failure} (h : Relocated r f f') :
    SameButFile r f f' := by
  have hrefl (l : Option Location) : Option.Rel (Location.Relocated r) l l := by
    cases l with
    | none => exact .none
    | some l => exact .some (.same l)
  -- nothing is asked of the message of a condition that names a file
  have hnamed {c : Code} {p : Prop} (hc : c.namesFile = true)
      (hcode : ∀ c' ∈ some c, c'.namesFile = false) : p :=
    absurd hc (Bool.eq_false_iff.mp (hcode c rfl))
  have hsame (f : Failure) : SameButFile r f f :=
    ⟨rfl, fun _ => ⟨rfl, rfl⟩, hrefl _, fun _ _ => rfl⟩
  cases h with
  | same f => exact hsame f
  | notAvailable => exact ⟨rfl, fun _ => ⟨rfl, rfl⟩, hrefl _, fun _ _ => rfl⟩
  | hook phase hook line _ hwords hwords' =>
    obtain ⟨reason, hreason⟩ := hwords
    obtain ⟨reason', hreason'⟩ := hwords'
    rw [Failure.ofHookAt, Failure.ofHookAt, ofHook_of_describe hreason, ofHook_of_describe hreason']
    exact ⟨rfl, hnamed rfl, .some (.moved line), fun _ hcode => absurd rfl hcode⟩
  | problem hp =>
    cases hp with
    | same p => exact hsame _
    | overridden pair hplace =>
      exact ⟨rfl, hnamed rfl, .some hplace, fun _ _ => rfl⟩
    | closed pair module phase hplace =>
      exact ⟨rfl, hnamed rfl, .some hplace, fun _ _ => rfl⟩
    | clash kind pair existing hd hplace =>
      exact ⟨rfl, hnamed rfl, .some hplace, fun hcode => absurd rfl hcode⟩

theorem CompiledModule.Relocated.sameButFile {c c' : CompiledModule} (h : Relocated r c c') :
    SameButFile c c' where
  module := h.module
  location := h.location
  exports := h.exports
  warnings := h.warnings
  ids := h.artifact.ids
  chunks _ := h.artifact.read?_of_ne
  artifact := h.artifact.eq_of_not_mem

/-- What the host answers does not depend on the name of the file. -/
structure Host.AnswersAlike (host : Host) (r : Relocation) : Prop where
  observe : ModuleBuild.AnswersAlike r host.observe host.observe
  warn : ModuleBuild.AnswersAlike r host.warn host.warn
  listener : ∀ listener ∈ host.listener, ModuleBuild.AnswersAlike r listener listener
  loader : ∀ loader ∈ host.loader, ModuleBuild.AnswersAlike r loader loader

/-- The host with places relative to a directory. -/
def Host.relativeTo (host : Host) (directory : String) : Host :=
  { host with options := { host.options with relativeTo := directory } }

/-- Hosts that answer alike, in directories below which the file stands at one path. -/
theorem Host.AnswersAlike.relocated {host : Host} (h : host.AnswersAlike r)
    {directory directory' : String}
    (hpath : Path.relativeTo directory' r.target = Path.relativeTo directory r.origin) :
    Host.Relocated r (host.relativeTo directory) (host.relativeTo directory') where
  docs := rfl
  ignoreModuleConflict := rfl
  isInternal := rfl
  path := hpath
  observe := h.observe
  warn := h.warn
  listener := by
    show Option.Rel _ host.listener host.listener
    cases hlistener : host.listener with
    | none => exact .none
    | some listener => exact .some (h.listener listener hlistener)
  loader := by
    show Option.Rel _ host.loader host.loader
    cases hloader : host.loader with
    | none => exact .none
    | some loader => exact .some (h.loader loader hloader)

namespace FormLibrary

/-- Which hooks of the library answer does not depend on the name of the file. -/
def AnswersAlike (lib : FormLibrary) (r : Relocation) : Prop :=
  ∀ rule ∈ lib.hooks, ModuleBuild.AnswersAlike r rule.applies rule.applies

variable {lib : FormLibrary} {g g' : Engine} {scope scope' : ModuleScope}

theorem AnswersAlike.hook?_eq (h : lib.AnswersAlike r) {log log' : List Event}
    (hlog : LogRelocated r log log') (t : HookTarget) : lib.hook? t log' = lib.hook? t log := by
  unfold hook?
  rw [List.find?_congr fun rule hrule => by rw [h rule hrule log log' hlog]]

/-! ## Forms in lockstep -/

theorem lockstep_call (t : HookTarget) (args : List Value) :
    Lockstep r Eq (lib.call t args) (lib.call t args) := by
  unfold call
  cases lib.function? t with
  | none => exact lockstep_fail_same _
  | some answer =>
    exact lockstep_bind (lockstep_record (.same _)) fun _ _ _ =>
      lockstep_ofFailure (.refl .same (fun _ => rfl) answer)

section Scope

variable (hscope : ModuleScope.Relocated r scope scope') (hg : Engine.Relocated r g g')
include hscope hg

/-- What an action answers tells of the file only if it is a definition. -/
theorem lockstep_perform (line : Option Int) (a : FormAction) :
    Lockstep r (fun v v' => FormResult.Relocated r (.value v) (.value v'))
      (a.perform lib g scope line) (a.perform lib g' scope' line) := by
  have hsame {v v' : Value} (h : v = v') : FormResult.Relocated r (.value v) (.value v') :=
    h ▸ .same _
  cases a with
  | define kind pair clause =>
    refine lockstep_bind (Engine.lockstep_define hscope hg _) ?_
    rintro ⟨d, isNew⟩ ⟨d', isNew'⟩ ⟨hd, hnew⟩
    obtain rfl : isNew' = isNew := hnew
    exact lockstep_pure (.definition hd isNew')
  | write key v =>
    exact lockstep_bind (Engine.lockstep_putAttribute hscope hg key v) fun _ _ _ =>
      lockstep_pure (.same _)
  | read key => exact Lockstep.imp (Engine.lockstep_readAttribute hscope key) fun _ _ => hsame
  | declare key policy =>
    exact lockstep_bind (lockstep_changeAttributes hscope _) fun _ _ _ => lockstep_pure (.same _)
  | delete key =>
    exact lockstep_bind (lockstep_changeAttributes hscope _) fun _ _ _ => lockstep_pure (.same _)
  | recordLocal pair =>
    exact lockstep_bind (Engine.lockstep_recordLocal hscope pair) fun _ _ _ =>
      lockstep_pure (.same _)
  | call target args => exact Lockstep.imp (lockstep_call target args) fun _ _ => hsame
  | raise message => exact lockstep_fail_same _
  | constant v => exact lockstep_pure (.same _)
  | nothing => exact lockstep_pure (.same _)

end Scope

theorem Form.relocated_leave (f : Form) {env env' : CompileEnv}
    (henv : CompileEnv.Relocated r env env') :
    CompileEnv.Relocated r (f.leave env) (f.leave env') := by
  cases henv
  exact .mk _ _ _ _

mutual

/-- A form is evaluated in lockstep. -/
theorem lockstep_eval (hg : Engine.Relocated r g g') {scope scope' : ModuleScope}
    (hscope : ModuleScope.Relocated r scope scope') :
    ∀ f : Form, Lockstep r (FormResult.Relocated r) (lib.eval g scope f) (lib.eval g' scope' f)
  | .malformed => lockstep_fail_same _
  | .act line a => by
    unfold eval
    rw [map_eq_pure_bind, map_eq_pure_bind]
    exact lockstep_bind (lockstep_perform hscope hg line a) fun _ _ h => lockstep_pure h
  | .module line name body => by
    unfold eval
    have henv : CompileEnv.Relocated r { scope.env with line := line.getD scope.env.line }
        { scope'.env with line := line.getD scope'.env.line } := by
      cases hscope with
      | mk module ticket henv =>
        cases henv
        exact .mk _ _ _ _
    have hevaluate : EvaluateBody.Relocated r
        (fun env scope => lib.evalBody g (.value .null) env scope body)
        (fun env scope => lib.evalBody g' (.value .null) env scope body) :=
      fun henv hscope => lockstep_evalBody hg hscope (.same _) henv body
    refine lockstep_bind (Engine.lockstep_compile hg hevaluate name henv) fun c c' hc => ?_
    rw [hc.module]
    exact lockstep_pure (.same _)

/-- So are forms in turn. -/
theorem lockstep_evalBody (hg : Engine.Relocated r g g') {scope scope' : ModuleScope}
    (hscope : ModuleScope.Relocated r scope scope') {value value' : FormResult}
    (hvalue : FormResult.Relocated r value value') {env env' : CompileEnv}
    (henv : CompileEnv.Relocated r env env') :
    ∀ body : List Form,
      Lockstep r (fun p p' => FormResult.Relocated r p.1 p'.1 ∧ CompileEnv.Relocated r p.2 p'.2)
        (lib.evalBody g value env scope body) (lib.evalBody g' value' env' scope' body)
  | [] => lockstep_pure ⟨hvalue, henv⟩
  | f :: rest => by
    unfold evalBody
    exact lockstep_bind (lockstep_eval hg hscope f) fun _ _ hvalue =>
      lockstep_evalBody hg hscope hvalue (Form.relocated_leave f henv) rest

end

/-! ## Hooks in lockstep -/

section Hooks

variable (hscope : ModuleScope.Relocated r scope scope') {subject subject' : HookSubject}
  (hsubject : HookSubject.Relocated r subject subject') {env env' : CompileEnv}
  (henv : CompileEnv.Relocated r env env')
include hscope hsubject henv

theorem lockstep_answer (phase : HookPhase) (q : HookQuery) :
    Lockstep r (Note.Relocated r) (answer phase subject env scope q)
      (answer phase subject' env' scope' q) := by
  cases q with
  | contexts => exact lockstep_pure (.contexts henv hscope.env)
  | arguments => exact lockstep_pure (.arguments _ hsubject)
  | chunks => exact lockstep_pure (.chunks hsubject)
  | scope =>
    refine lockstep_bind (lockstep_entry hscope) fun e e' he => ?_
    rw [he.state.phase, hscope.module]
    exact lockstep_pure (.same _)
  | openState module =>
    refine lockstep_bind lockstep_get fun w w' hw => ?_
    rw [hw.registry.isOpen_eq]
    exact lockstep_pure (.same _)
  | attributeState module key =>
    refine lockstep_bind lockstep_get fun w w' hw => ?_
    rw [hw.registry.readAttribute_eq]
    exact lockstep_pure (.same _)

variable (hg : Engine.Relocated r g g')
include hg

theorem lockstep_runStep (phase : HookPhase) (s : HookStep) :
    Lockstep r Eq (lib.runStep g phase subject env scope s)
      (lib.runStep g' phase subject' env' scope' s) := by
  cases s with
  | evaluate f =>
    exact lockstep_bind (lockstep_eval hg hscope f) fun _ _ hvalue =>
      lockstep_record (.noted (.evaluated hvalue))
  | attempt f =>
    exact lockstep_bind (lockstep_attempt (lockstep_eval hg hscope f)) fun _ _ houtcome =>
      lockstep_record (.noted (.tried houtcome))
  | stop f => exact lockstep_fail_same f
  | note q =>
    exact lockstep_bind (lockstep_answer hscope hsubject henv phase q) fun _ _ hnote =>
      lockstep_record (.noted hnote)

theorem lockstep_runSteps (phase : HookPhase) (steps : List HookStep) :
    Lockstep r Eq (lib.runSteps g phase subject env scope steps)
      (lib.runSteps g' phase subject' env' scope' steps) := by
  induction steps with
  | nil => exact lockstep_pure rfl
  | cons s rest ih =>
    exact lockstep_bind (lockstep_runStep hscope hsubject henv hg phase s) fun _ _ _ => ih

theorem lockstep_respond (phase : HookPhase) (target : HookTarget) (answering : Option Hook) :
    Lockstep r (CompileEnv.Relocated r) (lib.respond g phase target subject env scope answering)
      (lib.respond g' phase target subject' env' scope' answering) := by
  cases answering with
  | none => exact lockstep_fail_same _
  | some hook =>
    unfold respond
    rw [henv.line_eq]
    refine lockstep_bind (lockstep_record (.same _)) fun _ _ _ => ?_
    refine lockstep_bind (lockstep_runSteps hscope hsubject henv hg phase _) fun _ _ _ => ?_
    cases hook.expansion with
    | none => exact lockstep_pure henv
    | some f =>
      exact lockstep_bind (lockstep_evalBody hg hscope (.same _) henv [f]) fun _ _ hends =>
        lockstep_pure hends.2

end Hooks

/-- **Hooks are in lockstep** however deeply they call each other. -/
theorem relocated_engine (hlib : lib.AnswersAlike r) {host host' : Host}
    (hhost : Host.Relocated r host host') (depth : Nat) :
    Engine.Relocated r (lib.engine host depth) (lib.engine host' depth) := by
  induction depth with
  | zero => exact ⟨hhost, fun _ _ _ _ _ _ _ _ _ _ _ w w' hw => ⟨.error .exhausted, hw⟩⟩
  | succ depth ih =>
    refine ⟨hhost, fun phase target subject subject' env env' scope scope' hs henv hscope => ?_⟩
    refine lockstep_bind lockstep_get fun w w' hw => ?_
    have hhook := hlib.hook?_eq hw.log target
    show Lockstep r _ (lib.respond (lib.engine host depth) phase target subject env scope
        (lib.hook? target w.log))
      (lib.respond (lib.engine host' depth) phase target subject' env' scope'
        (lib.hook? target w'.log))
    rw [hhook]
    exact lockstep_respond hscope hs henv ih phase target _

/-- **Compilation does not depend on where the sources lie**, but for the places of definitions and
of hook calls.  Let a file stand at one path below two absolute directories, and let each be the
directory that places are relative to.  Then the compilations are both fulfilled or both rejected.
What fulfilled ones answer is the same but for the chunk that keeps the definitions with their
places, and byte for byte the same without it.  What they are rejected with is the same, or a
condition that names the line of a definition or of a hook call in the file.  Neither differs in
more than the name of the file, nor does what is left behind (`World.Relocated`). -/
theorem compile_portable {lib : FormLibrary} {host : Host} {directory directory' f : String}
    {name : String} {env : CompileEnv} {body : List Form} {w : World}
    (hdirectory : Path.isAbsolute directory = true)
    (hdirectory' : Path.isAbsolute directory' = true) (hf : Path.IsBelow f)
    (hlib : lib.AnswersAlike ⟨directory ++ "/" ++ f, directory' ++ "/" ++ f⟩)
    (hhost : host.AnswersAlike ⟨directory ++ "/" ++ f, directory' ++ "/" ++ f⟩) :
    let file := directory ++ "/" ++ f
    let file' := directory' ++ "/" ++ f
    let run := lib.compile (host.relativeTo directory) name { env with file := file } body w
    let run' := lib.compile (host.relativeTo directory') name { env with file := file' } body w
    (∃ c c' w₁ w₁', run = (.ok c, w₁) ∧ run' = (.ok c', w₁') ∧ c.SameButFile c' ∧
        c.Relocated ⟨file, file'⟩ c' ∧ World.Relocated ⟨file, file'⟩ w₁ w₁') ∨
      ∃ e e' w₁ w₁', run = (.error (.failed e), w₁) ∧ run' = (.error (.failed e'), w₁') ∧
        e.SameButFile ⟨file, file'⟩ e' ∧ e.Relocated ⟨file, file'⟩ e' ∧
        World.Relocated ⟨file, file'⟩ w₁ w₁' := by
  intro file file' run run'
  have hpath : Path.relativeTo directory' file' = Path.relativeTo directory file := by
    rw [Path.relativeTo_append hdirectory' hf, Path.relativeTo_append hdirectory hf]
  have hg : Engine.Relocated ⟨file, file'⟩ (lib.engineFor (host.relativeTo directory) body)
      (lib.engineFor (host.relativeTo directory') body) :=
    relocated_engine hlib (hhost.relocated hpath) (lib.depth body)
  have hevaluate : EvaluateBody.Relocated ⟨file, file'⟩
      (lib.evaluation (lib.engineFor (host.relativeTo directory) body) body)
      (lib.evaluation (lib.engineFor (host.relativeTo directory') body) body) :=
    fun henv hscope => lockstep_evalBody hg hscope (.same _) henv body
  have henv : CompileEnv.Relocated ⟨file, file'⟩ { env with file := file }
      { env with file := file' } := .mk _ _ _ _
  have hcompile := Engine.lockstep_compile hg hevaluate name henv
  rcases hcompile.ends (World.Relocated.refl w) with
    ⟨c, c', w₁, w₁', hrun, hrun', hc, hw⟩ | ⟨s, s', w₁, w₁', hrun, hrun', hs, hw⟩
  · exact .inl ⟨c, c', w₁, w₁', hrun, hrun', hc.sameButFile, hc, hw⟩
  · cases hs with
    | failed he => exact .inr ⟨_, _, w₁, w₁', hrun, hrun', he.sameButFile, he, hw⟩
    | exhausted =>
      have hends := compile_ne_exhausted lib (host.relativeTo directory) name body
        { env with file := file } w
      refine absurd ?_ hends
      exact congrArg Prod.fst hrun

end FormLibrary

namespace Checkout

def library : FormLibrary := ⟨[], []⟩

def host : Host where
  options := .default "/"
  observe _ := none
  warn _ := none
  listener := none
  loader := none

/-- A module that defines a function and then a macro of the same name. -/
def body : List Form :=
  [.act (some 2) (.define .function ⟨"f", 0⟩ none),
    .act (some 3) (.define .macroFunction ⟨"f", 0⟩ none)]

def file (directory : String) : String := directory ++ "/" ++ "lib/twice.mod"

def env : CompileEnv := ⟨"", 1, none, none, []⟩

def before : World := ⟨.empty, .empty, ⟨"run", []⟩, []⟩

/-- The compilation of the file that stands below a directory. -/
def run (directory : String) : Except Stop CompiledModule × World :=
  library.compile (host.relativeTo directory) "Twice" { env with file := file directory } body
    before

/-- What it is rejected with. -/
def clash (directory : String) : Failure :=
  .ofProblem ⟨.kindClash .macroFunction ⟨"f", 0⟩ .function ⟨file directory, 2⟩,
    some ⟨file directory, 3⟩⟩

end Checkout

open Checkout in
/-- Two checkouts of one file are rejected with conditions that name two different places. -/
theorem FormLibrary.compile_portable_clash :
    ∃ w w', run "/a" = (.error (.failed (clash "/a")), w) ∧
      run "/b" = (.error (.failed (clash "/b")), w') ∧
      (clash "/a").SameButFile ⟨file "/a", file "/b"⟩ (clash "/b") ∧
      (clash "/a").location? ≠ (clash "/b").location? := by
  have hbelow : Path.IsBelow "lib/twice.mod" := ⟨by decide, by decide, by decide⟩
  have hlib (r : Relocation) : library.AnswersAlike r := nofun
  have hhost (r : Relocation) : host.AnswersAlike r :=
    ⟨fun _ _ _ => rfl, fun _ _ _ => rfl, nofun, nofun⟩
  have hplaces : (clash "/a").location? ≠ (clash "/b").location? := by decide
  have ha : (run "/a").1 = .error (.failed (clash "/a")) := by rfl
  have hb : (run "/b").1 = .error (.failed (clash "/b")) := by rfl
  have hportable := @compile_portable library host "/a" "/b" "lib/twice.mod" "Twice" env body
    before (by decide) (by decide) hbelow (hlib _) (hhost _)
  rcases hportable with ⟨c, c', w, w', hrun, -⟩ | ⟨e, e', w, w', hrun, hrun', he, -⟩
  · cases ha.symm.trans (congrArg Prod.fst hrun)
  · cases ha.symm.trans (congrArg Prod.fst hrun)
    cases hb.symm.trans (congrArg Prod.fst hrun')
    exact ⟨w, w', hrun, hrun', he, hplaces⟩

end ModuleBuild
