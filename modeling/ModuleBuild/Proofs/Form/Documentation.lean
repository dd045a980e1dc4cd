import ModuleBuild.Proofs.Compile.Documentation
import ModuleBuild.Proofs.Form.Conduct

/-! # Documentation shows in its chunk only

Two bodies that differ only in the documentation they write (`Form.maskBodyDocs`) are compiled
alike, whatever the host answers and however modules are nested, as long as nobody gives the keys
of documentation another policy and no hook goes on after a failure.  The induction is on the
forms of one body, which have those of the other beside them (`alike_evalBody`), and on the depth
of the calls for the hooks, which are the same in both (`firesAlike_engine`).  If both
compilations are fulfilled, all chunks are the same but the one that keeps the documentation
(`compile_same_but_docs`).
-/
namespace ModuleBuild

open Run

/-! ## What forms write and declare -/

/-- An action without the documentation that it writes. -/
def FormAction.mask : FormAction → FormAction
  | write key v => write key (maskDocs key v)
  | a => a

/-- The keys that an action gives a policy. -/
def FormAction.declaredKeys : FormAction → List String
  | declare key _ => [key]
  | _ => []

/-- Actions that are the same but for documentation are the same, or they write documentation. -/
theorem FormAction.eq_or_write_of_mask {a a' : FormAction} (h : a'.mask = a.mask) :
    a' = a ∨ ∃ key v v', a = write key v ∧ a' = write key v' ∧
      maskDocs key v' = maskDocs key v := by
  cases a with
  | write key v =>
    cases a' with
    | write key' v' =>
      obtain ⟨rfl, hv⟩ := FormAction.write.inj h
      exact .inr ⟨key', v, v', rfl, rfl, hv⟩
    | _ => cases h
  | _ =>
    cases a' with
    | write key' v' => cases h
    | _ => exact .inl h

namespace Form

mutual
/-- A form without the documentation that it writes, at any depth. -/
def mask : Form → Form
  | malformed => malformed
  | act line a => act line a.mask
  | module line name body => module line name (maskBody body)

/-- Forms without the documentation that they write, at any depth. -/
def maskBody : List Form → List Form
  | [] => []
  | f :: rest => f.mask :: maskBody rest
end

mutual
/-- The keys that a form may give a policy, at any depth. -/
def declaredKeys : Form → List String
  | malformed => []
  | act _ a => a.declaredKeys
  | module _ _ body => bodyDeclaredKeys body

/-- The keys that forms may give a policy, at any depth. -/
def bodyDeclaredKeys : List Form → List String
  | [] => []
  | f :: rest => f.declaredKeys ++ bodyDeclaredKeys rest
end

theorem line?_mask (f : Form) : f.mask.line? = f.line? := by
  cases f <;> rfl

theorem bodyDeclaredKeys_eq (fs : List Form) :
    bodyDeclaredKeys fs = fs.flatMap declaredKeys := by
  induction fs with
  | nil => rfl
  | cons f rest ih => rw [bodyDeclaredKeys, ih, List.flatMap_cons]

mutual

theorem names_mask : ∀ f : Form,
    f.mask.moduleNames = f.moduleNames ∧ f.mask.definedPairs = f.definedPairs
  | malformed => ⟨rfl, rfl⟩
  | act _ a => by
    refine ⟨rfl, ?_⟩
    show a.mask.definedPairs = a.definedPairs
    cases a <;> rfl
  | module _ name body => by
    obtain ⟨hnames, hpairs⟩ := names_maskBody body
    refine ⟨?_, hpairs⟩
    show name :: bodyModuleNames (maskBody body) = name :: bodyModuleNames body
    rw [hnames]

/-- Documentation names no modules and defines nothing. -/
theorem names_maskBody : ∀ fs : List Form,
    bodyModuleNames (maskBody fs) = bodyModuleNames fs ∧
      bodyDefinedPairs (maskBody fs) = bodyDefinedPairs fs
  | [] => ⟨rfl, rfl⟩
  | f :: rest => by
    obtain ⟨hnames, hpairs⟩ := names_mask f
    obtain ⟨hnames', hpairs'⟩ := names_maskBody rest
    constructor
    · rw [maskBody, bodyModuleNames, bodyModuleNames, hnames, hnames']
    · rw [maskBody, bodyDefinedPairs, bodyDefinedPairs, hpairs, hpairs']

end

end Form

/-! ## Forms that are evaluated alike -/

namespace FormLibrary

/-- The hooks have fixed outcomes: which of them answers does not depend on what has happened, and
none goes on after a failure.  (One that did could do different things after what the host
answers, and the host is told of artifacts with their documentation.) -/
structure HasFixedOutcomes (lib : FormLibrary) : Prop where
  answering : ∀ target log log', lib.hook? target log' = lib.hook? target log
  unguarded : ∀ rule ∈ lib.hooks, ∀ f, HookStep.attempt f ∉ rule.hook.steps

variable {lib : FormLibrary} {g : Engine} {start : World}

theorem depth_eq_of_maskBody {body body' : List Form}
    (h : Form.maskBody body' = Form.maskBody body) : lib.depth body' = lib.depth body := by
  obtain ⟨hnames, hpairs⟩ := Form.names_maskBody body
  obtain ⟨hnames', hpairs'⟩ := Form.names_maskBody body'
  have hsameNames : Form.bodyModuleNames body' = Form.bodyModuleNames body := by
    rw [← hnames', h, hnames]
  have hsamePairs : Form.bodyDefinedPairs body' = Form.bodyDefinedPairs body := by
    rw [← hpairs', h, hpairs]
  rw [Form.bodyModuleNames_eq, Form.bodyModuleNames_eq] at hsameNames
  rw [Form.bodyDefinedPairs_eq, Form.bodyDefinedPairs_eq] at hsamePairs
  unfold depth
  simp only [Form.bodyModuleNames_eq, Form.bodyDefinedPairs_eq, List.flatMap_append, hsameNames,
    hsamePairs]

section Actions

variable {scope : ModuleScope} (hscope : start.registry.entries.length ≤ scope.ticket)

theorem alike_call {docs : Bool} (t : HookTarget) (args : List Value) :
    Alike docs start anything (lib.call t args) (lib.call t args) := by
  unfold call
  cases lib.function? t with
  | none => exact alike_fail_left _ _
  | some answer =>
    exact alike_bind (alike_record rfl rfl) fun _ _ _ =>
      alike_ofFailure fun _ _ _ _ => trivial

include hscope

/-- What an action answers may be documentation that was read, so it is not compared. -/
theorem alike_perform (hfire : g.FiresAlike start) (line : Option Int) {a a' : FormAction}
    (ha : a'.mask = a.mask) (hkeys : ∀ key ∈ a.declaredKeys, key ∉ docKeys) :
    Alike g.host.options.docs start anything (a.perform lib g scope line)
      (a'.perform lib g scope line) := by
  rcases FormAction.eq_or_write_of_mask ha with rfl | ⟨key, v, v', rfl, rfl, hv⟩
  · cases a' with
    | define kind pair clause =>
      exact alike_bind (Engine.alike_define hscope hfire _) fun _ _ _ => alike_pure trivial
    | write key v =>
      exact alike_bind (Engine.alike_putAttribute hscope rfl) fun _ _ _ => alike_pure trivial
    | read key => exact Engine.alike_readAttribute hscope key
    | declare key policy =>
      have hkey : key ∉ docKeys := hkeys key (List.mem_singleton_self key)
      exact alike_bind (alike_declare hscope policy hkey) fun _ _ _ => alike_pure trivial
    | delete key => exact alike_bind (alike_delete hscope key) fun _ _ _ => alike_pure trivial
    | recordLocal pair =>
      exact alike_bind (Engine.alike_recordLocal hscope pair) fun _ _ _ => alike_pure trivial
    | call target args => exact alike_call target args
    | raise message => exact alike_fail_left _ _
    | constant v => exact alike_pure trivial
    | nothing => exact alike_pure trivial
  · exact alike_bind (Engine.alike_putAttribute hscope hv) fun _ _ _ => alike_pure trivial

end Actions

mutual

/-- A form and one that differs in documentation at most are evaluated alike. -/
theorem alike_eval (hfire : g.FiresAlike start) {scope : ModuleScope}
    (hscope : start.registry.entries.length ≤ scope.ticket) :
    ∀ f f' : Form, f'.mask = f.mask → (∀ key ∈ f.declaredKeys, key ∉ docKeys) →
      Alike g.host.options.docs start anything (lib.eval g scope f) (lib.eval g scope f')
  | .malformed, _, _, _ => alike_fail_left _ _
  | .act line a, f', hf, hkeys => by
    cases f' with
    | act line' a' =>
      obtain ⟨rfl, ha⟩ := Form.act.inj hf
      unfold eval
      rw [map_eq_pure_bind, map_eq_pure_bind]
      exact alike_bind (alike_perform hscope hfire line' ha hkeys) fun _ _ _ => alike_pure trivial
    | malformed | module => cases hf
  | .module line name body, f', hf, hkeys => by
    cases f' with
    | module line' name' body' =>
      obtain ⟨rfl, rfl, hbody⟩ := Form.module.inj hf
      unfold eval
      -- the nested module has a later ticket, so nothing is known of it but what is alike
      have hevaluate (env : CompileEnv) (inner : ModuleScope)
          (hinner : start.registry.entries.length ≤ inner.ticket) :
          Alike g.host.options.docs start (fun p p' => p'.2 = p.2)
            (lib.evalBody g (.value .null) env inner body)
            (lib.evalBody g (.value .null) env inner body') :=
        alike_evalBody hfire hinner _ _ env body body' hbody hkeys
      exact alike_bind (Engine.alike_compile hfire hevaluate name' _) fun _ _ _ =>
        alike_pure trivial
    | malformed | act => cases hf

/-- So are forms in turn, and they leave the same context. -/
theorem alike_evalBody (hfire : g.FiresAlike start) {scope : ModuleScope}
    (hscope : start.registry.entries.length ≤ scope.ticket) (value value' : FormResult)
    (env : CompileEnv) :
    ∀ body body' : List Form, Form.maskBody body' = Form.maskBody body →
      (∀ key ∈ Form.bodyDeclaredKeys body, key ∉ docKeys) →
      Alike g.host.options.docs start (fun p p' => p'.2 = p.2)
        (lib.evalBody g value env scope body) (lib.evalBody g value' env scope body')
  | [], body', hbody, _ => by
    cases body' with
    | nil => exact alike_pure rfl
    | cons f' rest' => cases hbody
  | f :: rest, body', hbody, hkeys => by
    cases body' with
    | nil => cases hbody
    | cons f' rest' =>
      obtain ⟨hf, hrest⟩ := List.cons.inj hbody
      have hline : f'.line? = f.line? := by rw [← f'.line?_mask, hf, f.line?_mask]
      have hleave : f'.leave env = f.leave env := by
        unfold Form.leave
        rw [hline]
      unfold evalBody
      have hkeysHere : ∀ key ∈ f.declaredKeys, key ∉ docKeys := fun key hkey =>
        hkeys key (List.mem_append_left _ hkey)
      have hkeysRest : ∀ key ∈ Form.bodyDeclaredKeys rest, key ∉ docKeys := fun key hkey =>
        hkeys key (List.mem_append_right _ hkey)
      refine alike_bind (alike_eval hfire hscope f f' hf hkeysHere) fun value value' _ => ?_
      rw [hleave]
      exact alike_evalBody hfire hscope value value' (f.leave env) rest rest' hrest hkeysRest

end

/-! ## Hooks that are alike -/

section Hooks

variable {scope : ModuleScope} (hscope : start.registry.entries.length ≤ scope.ticket)
include hscope

/-- What hooks note down is not compared. -/
theorem alike_answer {docs : Bool} (phase : HookPhase) (subject subject' : HookSubject)
    (env : CompileEnv) (q : HookQuery) :
    Alike docs start anything (answer phase subject env scope q)
      (answer phase subject' env scope q) := by
  cases q with
  | contexts | arguments | chunks => exact alike_pure trivial
  | scope => exact alike_bind (alike_entry hscope) fun _ _ _ => alike_pure trivial
  | openState | attributeState =>
    exact alike_bind alike_get fun _ _ _ => alike_pure trivial

variable (hfire : g.FiresAlike start)
include hfire

theorem alike_runStep (phase : HookPhase) (subject subject' : HookSubject) (env : CompileEnv)
    {s : HookStep} (hforms : ∀ f ∈ s.forms, ∀ key ∈ f.declaredKeys, key ∉ docKeys)
    (hs : ∀ f, s ≠ .attempt f) :
    Alike g.host.options.docs start anything (lib.runStep g phase subject env scope s)
      (lib.runStep g phase subject' env scope s) := by
  cases s with
  | evaluate f =>
    have hf : Alike g.host.options.docs start anything (lib.eval g scope f) (lib.eval g scope f) :=
      alike_eval hfire hscope f f rfl (hforms f (List.mem_singleton_self f))
    exact alike_bind hf fun _ _ _ => alike_record rfl rfl
  | attempt f => exact (hs f rfl).elim
  | stop f => exact alike_fail_left _ _
  | note q =>
    exact alike_bind (alike_answer hscope phase subject subject' env q) fun _ _ _ =>
      alike_record rfl rfl

theorem alike_runSteps (phase : HookPhase) (subject subject' : HookSubject) (env : CompileEnv)
    (steps : List HookStep)
    (hforms : ∀ s ∈ steps, ∀ f ∈ s.forms, ∀ key ∈ f.declaredKeys, key ∉ docKeys)
    (hsteps : ∀ f, HookStep.attempt f ∉ steps) :
    Alike g.host.options.docs start anything (lib.runSteps g phase subject env scope steps)
      (lib.runSteps g phase subject' env scope steps) := by
  induction steps with
  | nil => exact alike_pure trivial
  | cons s rest ih =>
    obtain ⟨hhere, hrest⟩ := List.forall_mem_cons.mp hforms
    have hs : ∀ f, s ≠ .attempt f := by
      rintro f rfl
      exact hsteps f List.mem_cons_self
    refine alike_bind (alike_runStep hscope hfire phase subject subject' env hhere hs) ?_
    exact fun _ _ _ => ih hrest fun f hf => hsteps f (List.mem_cons_of_mem _ hf)

theorem alike_respond (phase : HookPhase) (target : HookTarget) (subject subject' : HookSubject)
    (env : CompileEnv) (answering : Option Hook)
    (hforms : ∀ hook ∈ answering, ∀ f ∈ hook.forms, ∀ key ∈ f.declaredKeys, key ∉ docKeys)
    (hsteps : ∀ hook ∈ answering, ∀ f, HookStep.attempt f ∉ hook.steps) :
    Alike g.host.options.docs start Eq (lib.respond g phase target subject env scope answering)
      (lib.respond g phase target subject' env scope answering) := by
  cases answering with
  | none => exact alike_fail_left _ _
  | some hook =>
    have hhook : ∀ f ∈ hook.forms, ∀ key ∈ f.declaredKeys, key ∉ docKeys := hforms hook rfl
    have hstepForms : ∀ s ∈ hook.steps, ∀ f ∈ s.forms, ∀ key ∈ f.declaredKeys, key ∉ docKeys :=
      fun s hs f hf => hhook f (Hook.mem_forms_of_step hs hf)
    refine alike_bind (alike_record rfl rfl) fun _ _ _ => ?_
    refine alike_bind (alike_runSteps hscope hfire phase subject subject' env _ hstepForms
      (hsteps hook rfl)) fun _ _ _ => ?_
    cases hexpansion : hook.expansion with
    | none => exact alike_pure rfl
    | some f =>
      have hf : ∀ key ∈ Form.bodyDeclaredKeys [f], key ∉ docKeys := by
        intro key hkey
        rw [Form.bodyDeclaredKeys_eq, List.flatMap_singleton] at hkey
        exact hhook f (Hook.mem_forms_of_expansion hexpansion) key hkey
      refine alike_bind (alike_evalBody hfire hscope _ _ env [f] [f] rfl hf) ?_
      rintro ⟨_, env₁⟩ ⟨_, env₂⟩ henv
      exact alike_pure henv.symm

end Hooks

/-- **Hooks are alike** however deeply they call each other. -/
theorem firesAlike_engine (hlib : lib.HasFixedOutcomes)
    (hkeys : ∀ f ∈ lib.forms, ∀ key ∈ f.declaredKeys, key ∉ docKeys) (host : Host) (depth : Nat) :
    (lib.engine host depth).FiresAlike start := by
  induction depth with
  | zero => exact fun _ _ _ _ _ _ _ _ _ _ _ _ _ _ hr => nomatch hr
  | succ depth ih =>
    intro phase target subject subject' env scope hscope
    show Alike host.options.docs start Eq
      (lib.fire (lib.engine host depth) phase target subject env scope)
      (lib.fire (lib.engine host depth) phase target subject' env scope)
    rw [fire_eq, fire_eq]
    refine alike_bind alike_get fun w w' _ => ?_
    rw [hlib.answering target w.log w'.log]
    have hforms : ∀ hook ∈ lib.hook? target w.log, ∀ f ∈ hook.forms,
        ∀ key ∈ f.declaredKeys, key ∉ docKeys := fun hook hhook f hf =>
      hkeys f (mem_forms_of_hook? hhook hf)
    have hsteps : ∀ hook ∈ lib.hook? target w.log, ∀ f, HookStep.attempt f ∉ hook.steps := by
      intro hook hhook
      obtain ⟨rule, hrule, rfl⟩ := Option.map_eq_some_iff.mp hhook
      exact hlib.unguarded rule (List.mem_of_find?_eq_some hrule)
    -- the hooks that it calls are one level deeper, with the same host
    have hhost : (lib.engine host depth).host = host := host_engine depth
    have hrespond : Alike (lib.engine host depth).host.options.docs start Eq
        (lib.respond (lib.engine host depth) phase target subject env scope
          (lib.hook? target w.log))
        (lib.respond (lib.engine host depth) phase target subject' env scope
          (lib.hook? target w.log)) :=
      alike_respond hscope ih phase target subject subject' env _ hforms hsteps
    rwa [hhost] at hrespond

/-- **Documentation shows in its chunk only.**  Of two bodies that differ only in the values they
write to the keys of documentation, let both be compiled with the same host and with hooks of fixed
outcomes, where nobody gives these keys a policy.  If both compilations are fulfilled, they answer
with the same exports and warnings, and with the same chunks other than `Docs`.  Unless
documentation is collected, the artifacts are the same, have no such chunk, and nothing that is
compiled meanwhile warns of documentation that was not taken up. -/
theorem compile_same_but_docs {lib : FormLibrary} {host : Host} {name : String} {env : CompileEnv}
    {body body' : List Form} {w w₁ w₁' : World} {c c' : CompiledModule}
    (hlib : lib.HasFixedOutcomes) (hbody : Form.maskBody body' = Form.maskBody body)
    (hkeys : ∀ key ∈ Form.bodyDeclaredKeys (body ++ lib.forms), key ∉ docKeys)
    (h : lib.compile host name env body w = (.ok c, w₁))
    (h' : lib.compile host name env body' w = (.ok c', w₁')) :
    (c'.artifact.undocumented = c.artifact.undocumented ∧ c'.exports = c.exports ∧
        c'.warnings = c.warnings) ∧
      (host.options.docs = false →
        c'.artifact = c.artifact ∧ c.artifact.read? Chunk.docsId = none ∧
        (∀ d ∈ c.warnings, d.code ≠ .docUnused ∧ d.code ≠ .typedocUnused) ∧
        unusedDocsIn w₁.log = unusedDocsIn w.log ∧ unusedDocsIn w₁'.log = unusedDocsIn w.log) := by
  rw [Form.bodyDeclaredKeys_eq, List.flatMap_append] at hkeys
  have hbodyKeys : ∀ key ∈ Form.bodyDeclaredKeys body, key ∉ docKeys := by
    intro key hkey
    rw [Form.bodyDeclaredKeys_eq] at hkey
    exact hkeys key (List.mem_append_left _ hkey)
  have hlibKeys : ∀ f ∈ lib.forms, ∀ key ∈ f.declaredKeys, key ∉ docKeys := by
    intro f hf key hkey
    exact hkeys key (List.mem_append_right _ (List.mem_flatMap.mpr ⟨f, hf, hkey⟩))
  let g := lib.engine host (lib.depth body)
  have hhost : g.host = host := host_engine _
  have hfire : g.FiresAlike w := firesAlike_engine hlib hlibKeys host _
  have hevaluate (env : CompileEnv) (scope : ModuleScope)
      (hscope : w.registry.entries.length ≤ scope.ticket) :
      Alike g.host.options.docs w (fun p p' => p'.2 = p.2) (lib.evaluation g body env scope)
        (lib.evaluation g body' env scope) :=
    alike_evalBody hfire hscope _ _ env body body' hbody hbodyKeys
  have hrun : g.compile name env (lib.evaluation g body) w = (.ok c, w₁) := h
  have hrun' : g.compile name env (lib.evaluation g body') w = (.ok c', w₁') := by
    unfold compile engineFor at h'
    rwa [depth_eq_of_maskBody hbody] at h'
  obtain ⟨hc, hw⟩ := Engine.alike_compile hfire hevaluate name env (World.SameButDocs.refl _ w)
    hrun hrun'
  rw [hhost] at hc hw
  refine ⟨⟨hc.chunks, hc.exports, hc.warnings⟩, fun hdocs => ⟨hc.artifact hdocs, ?_, ?_, ?_⟩⟩
  · have hread := (Engine.handsOver_of_compile hrun).docs
    rw [hhost, hdocs] at hread
    exact Option.not_isSome_iff_eq_none.mp (Bool.eq_false_iff.mp hread)
  · intro d hd
    have hsilent := hc.silent hdocs d hd
    unfold Diagnostic.isUnusedDoc at hsilent
    rw [Bool.or_eq_false_iff] at hsilent
    exact ⟨of_decide_eq_false hsilent.1, of_decide_eq_false hsilent.2⟩
  · exact hw.silent hdocs

/-! ## A module described in two ways -/

namespace Described

/-- A library whose hook looks at the documentation that waits, and writes an attribute. -/
def watching : FormLibrary :=
  ⟨[], [⟨"Watch.__on_definition__", fun _ => true,
    [.note (.attributeState "Outer" "doc")], some (.act none (.write "vsn" (.text "1")))⟩]⟩

/-- A host that collects documentation or does not. -/
def host (docs : Bool) : Host where
  options := { CompilerOptions.default "/work" with docs }
  observe _ := none
  warn _ := none
  listener := none
  loader := none

def env : CompileEnv := ⟨"outer", 1, none, none, []⟩

/-- A module with a nested one, both described; nothing takes up the description of a type. -/
def body (text : String) : List Form :=
  [.act none (.write "moduledoc" (.text text)), .act none (.write "doc" (.text text)),
    .act none (.write "on_definition" (.text "Watch")),
    .act none (.define .privateFunction ⟨"f", 0⟩ none),
    .act none (.write "typedoc" (.text text)),
    .module none "Inner" [.act none (.write "moduledoc" (.text text))]]

/-- The world before: nothing is open or loaded. -/
def before : World := ⟨.empty, .empty, ⟨"run", []⟩, []⟩

theorem fulfilled :
    ∀ docs ∈ [true, false], ∀ text ∈ ["old", "new"],
      (watching.compile (host docs) "Outer" env (body text) before).1.isOk = true := by
  decide +kernel

theorem hasFixedOutcomes : watching.HasFixedOutcomes where
  answering _ _ _ := rfl
  unguarded rule hrule f hf := by
    obtain rfl := List.mem_singleton.mp hrule
    cases List.mem_singleton.mp hf

end Described

open Described in
/-- The chunks other than the documentation are the same; if that is not collected, there is no
difference at all. -/
theorem compile_same_but_docs_described :
    watching.HasFixedOutcomes ∧ Form.maskBody (body "new") = Form.maskBody (body "old") ∧
    (∀ key ∈ Form.bodyDeclaredKeys (body "old" ++ watching.forms), key ∉ docKeys) ∧
    ∀ docs ∈ [true, false], ∃ c c' w₁ w₁',
      watching.compile (Described.host docs) "Outer" env (body "old") before = (.ok c, w₁) ∧
      watching.compile (Described.host docs) "Outer" env (body "new") before = (.ok c', w₁') ∧
      (c.artifact.read? Chunk.docsId).isSome = docs ∧
      c'.artifact.undocumented = c.artifact.undocumented ∧
      (docs = false → c'.artifact = c.artifact) := by
  have hbody : Form.maskBody (body "new") = Form.maskBody (body "old") := rfl
  have hkeys : ∀ key ∈ Form.bodyDeclaredKeys (body "old" ++ watching.forms), key ∉ docKeys :=
    nofun
  refine ⟨Described.hasFixedOutcomes, hbody, hkeys, fun docs hdocs => ?_⟩
  have hold := Described.fulfilled docs hdocs "old" List.mem_cons_self
  have hnew := Described.fulfilled docs hdocs "new" (List.mem_cons_of_mem _ List.mem_cons_self)
  rcases h : watching.compile (Described.host docs) "Outer" env (body "old") before
    with ⟨stop | c, w₁⟩
  · rw [h] at hold
    cases hold
  rcases h' : watching.compile (Described.host docs) "Outer" env (body "new") before
    with ⟨stop | c', w₁'⟩
  · rw [h'] at hnew
    cases hnew
  obtain ⟨⟨hchunks, -⟩, hplain⟩ :=
    compile_same_but_docs Described.hasFixedOutcomes hbody hkeys h h'
  have hhands := Engine.handsOver_of_compile h
  exact ⟨c, c', w₁, w₁', rfl, rfl, hhands.docs, hchunks, fun hoff => (hplain hoff).1⟩

end FormLibrary
end ModuleBuild
