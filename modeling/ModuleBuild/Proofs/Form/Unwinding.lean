import Mathlib.Data.List.TakeWhile
import ModuleBuild.Form.Eval
import ModuleBuild.Proofs.Compile.Chronicle

/-! # Failures of hooks in hooks

The code of a hook may call further hooks of its module, whose code may call further ones.  A
run is in the course of another (`Run.InCourse`) if the other comes to it without catching what
it stops with, so that both stop alike; so is the evaluation of an expansion in the call of its
hook, and the call of a hook for a definition in the making of that definition.  Calls of hooks
are nested (`HookRun.Nested`) if each is in the course of the code of the one before it.

Every call wraps what its code raises and keeps the frames up to the first internal one, with its
own place behind them.  Its own place is not internal, so the calls outside keep what the calls
inside have left: the failure that leaves the outermost call has the frames of the code that
raised it, and then the places of the calls, the innermost first.

A call says in its failure what its code has raised.  If that cannot be said, the attempt is what
leaves the call, and the place of the call is lost: the calls outside add theirs to no frames at
all (`Engine.unwinding_laws`).
-/
namespace ModuleBuild

open Run

/-! ## Runs in the course of runs -/

/-- The run comes to the run `s` in the world `w'`, and catches nothing that `s` stops with. -/
inductive Run.InCourse {β : Type} (s : Run β) (w' : World) : {α : Type} → Run α → World → Prop
  | here : InCourse s w' s w'
  | first {α γ : Type} {x : Run γ} {f : γ → Run α} {w : World} :
      InCourse s w' x w → InCourse s w' (x >>= f) w
  | rest {α γ : Type} {x : Run γ} {f : γ → Run α} {w w₁ : World} {a : γ} :
      x w = (.ok a, w₁) → InCourse s w' (f a) w₁ → InCourse s w' (x >>= f) w

/-- A run stops with what stops in its course. -/
theorem Run.InCourse.stops {α β : Type} {s : Run β} {r : Run α} {w w' w₁ : World} {e : Stop}
    (h : InCourse s w' r w) (hs : s w' = (.error e, w₁)) : r w = (.error e, w₁) := by
  induction h with
  | here => exact hs
  | first _ ih => rw [bind_apply, ih]
  | rest hx _ ih =>
    rw [bind_apply, hx]
    exact ih

/-! ## Hooks in the course of hooks -/

/-- The hooks for a definition are called in the course of making it, if it is new. -/
theorem Engine.inCourse_define {β : Type} {s : Run β} {g : Engine} {scope : ModuleScope}
    {n : NewDefinition} {d : Definition} {w w₁ w' : World}
    (h : n.accept scope w = .ok (d, true, w₁))
    (hs : InCourse s w' (g.runOnDefinition scope { scope.env with
      line := (n.definition scope).location.line, function := some n.pair } d) w₁) :
    InCourse s w' (g.define scope n) w := by
  obtain ⟨e, ds, he, hphase, hds, rfl⟩ := NewDefinition.accept_eq_ok h
  have hentry : Run.entry scope w = (.ok e, w) := by rw [Run.entry_apply, he]
  have hdefine : Run.ofProblem (e.definitions.define (n.definition scope)) w
      = (.ok (d, true, ds), w) := by
    rw [hds]
    rfl
  unfold define
  refine .rest hentry ?_
  rw [if_pos hphase]
  exact .rest hdefine (.rest rfl (.first hs))

/-- The expansion of a hook is evaluated in the course of the code of its call. -/
theorem FormLibrary.inCourse_expansion {β : Type} {s : Run β} {lib : FormLibrary} {host : Host}
    {depth : Nat} {phase : HookPhase} {hook : Value} {target : HookTarget} {subject : HookSubject}
    {env : CompileEnv} {scope : ModuleScope} {steps : List HookStep} {f : Form} {w w₁ w' : World}
    (named : HookTarget.ofValue? phase hook = some target)
    (foreign : target.module ≠ compilerHookModule)
    (answers : lib.hook? target w.log = some ⟨steps, some f⟩)
    (hsteps : lib.runSteps (lib.engine host depth) phase subject env scope steps
      { w with log := w.log ++ [.dispatched target phase.arity env.line] } = (.ok (), w₁))
    (hs : InCourse s w' (lib.eval (lib.engine host depth) scope f) w₁) :
    InCourse s w' ((lib.engine host (depth + 1)).callHook phase hook subject env scope) w := by
  unfold Engine.callHook
  simp only [named, if_neg foreign]
  change InCourse s w' (lib.fire (lib.engine host depth) phase target subject env scope) w
  unfold fire
  refine .rest rfl ?_
  simp only [answers]
  exact .rest rfl (.rest hsteps (.first (.first hs)))

/-- A hook that stops at once is the end of the code of its call. -/
theorem FormLibrary.callHook_stop {lib : FormLibrary} {host : Host} {depth : Nat}
    {phase : HookPhase} {hook : Value} {target : HookTarget} {subject : HookSubject}
    {env : CompileEnv} {scope : ModuleScope} {f : Failure} {w : World}
    (named : HookTarget.ofValue? phase hook = some target)
    (foreign : target.module ≠ compilerHookModule)
    (answers : lib.hook? target w.log = some ⟨[.stop f], none⟩) :
    (lib.engine host (depth + 1)).callHook phase hook subject env scope w = (.error (.failed f),
      { w with log := w.log ++ [.dispatched target phase.arity env.line] }) := by
  unfold Engine.callHook
  simp only [named, if_neg foreign]
  change lib.fire (lib.engine host depth) phase target subject env scope w = _
  unfold fire
  rw [bind_apply, get_apply]
  simp only [answers]
  rfl

/-! ## Frames -/

/-- The frames of a failure that are of user code: those before the first internal one. -/
structure Failure.OwnFrames (f : Failure) (own : List Frame) : Prop where
  before : ∃ rest, f.frames = own ++ rest ∧
    ∀ frame, rest.head? = some frame → frame.isInternal = some true
  user : ∀ frame ∈ own, frame.isInternal ≠ some true

theorem Failure.ownFrames_takeWhile (f : Failure) :
    f.OwnFrames (f.frames.takeWhile fun frame => frame.isInternal ≠ some true) where
  before := by
    refine ⟨_, (List.takeWhile_append_dropWhile ..).symm, fun frame hframe => ?_⟩
    have hnot := List.head?_dropWhile_not (fun frame : Frame => decide (frame.isInternal ≠ some true))
      f.frames
    rw [hframe] at hnot
    simpa using hnot
  user frame hframe := by
    simpa using List.mem_takeWhile_imp hframe

theorem Frame.takeWhile_append_of_user {own rest : List Frame}
    (hown : ∀ frame ∈ own, frame.isInternal ≠ some true)
    (hrest : ∀ frame, rest.head? = some frame → frame.isInternal = some true) :
    (own ++ rest).takeWhile (fun frame => frame.isInternal ≠ some true) = own := by
  have hnone : rest.takeWhile (fun frame => frame.isInternal ≠ some true) = [] := by
    cases rest with
    | nil => rfl
    | cons frame more => simp [hrest frame rfl]
  rw [List.takeWhile_append_of_pos fun frame hframe => decide_eq_true (hown frame hframe), hnone,
    List.append_nil]

/-- Pruning keeps the own frames, and puts the place of the call behind them. -/
theorem Failure.OwnFrames.prune_eq {f : Failure} {own : List Frame} (h : f.OwnFrames own)
    (site : Frame) : Frame.prune f.frames site = own ++ [site] := by
  obtain ⟨rest, hframes, hrest⟩ := h.before
  rw [Frame.prune, hframes, Frame.takeWhile_append_of_user h.user hrest]

/-- Frames of which none is internal are all own frames. -/
theorem Failure.OwnFrames.of_user {f : Failure}
    (h : ∀ frame ∈ f.frames, frame.isInternal ≠ some true) : f.OwnFrames f.frames :=
  ⟨⟨[], (List.append_nil _).symm, nofun⟩, h⟩

/-- A failure that carries no frames has none of its own. -/
theorem Failure.OwnFrames.eq_nil {f : Failure} {own : List Frame} (h : f.OwnFrames own)
    (hnone : f.frames? = none) : own = [] := by
  obtain ⟨rest, hframes, -⟩ := h.before
  rw [Failure.frames, hnone] at hframes
  exact (List.append_eq_nil_iff.mp hframes.symm).1

/-! ## Calls of hooks -/

/-- A call of a hook of a module. -/
structure HookRun where
  engine : Engine
  phase : HookPhase
  subject : HookSubject
  env : CompileEnv
  hook : Value

namespace HookRun

/-- The call. -/
def run (c : HookRun) (scope : ModuleScope) : Run CompileEnv :=
  c.engine.runHook c.phase c.subject scope c.env c.hook

/-- What the target of the call does. -/
def code (c : HookRun) (scope : ModuleScope) : Run CompileEnv :=
  c.engine.callHook c.phase c.hook c.subject c.env scope

/-- The world in which the target does it: the call has been logged. -/
def begun (c : HookRun) (scope : ModuleScope) (w : World) : World :=
  { w with log := w.log ++ [.fired c.phase scope.module c.hook c.env] }

/-- The place of the call. -/
def site (c : HookRun) : Frame := HookTarget.callSite c.phase c.hook ⟨c.env.file, c.env.line⟩

/-- What the call stops with if its code raises a failure. -/
def failure (c : HookRun) (f : Failure) : Failure :=
  .ofHook c.phase.key c.site (Frame.prune f.frames c.site) f c.site.location

/-- The failure of the hook that is called, which says a reason. -/
def wrapped (c : HookRun) (reason : String) (frames : List Frame) (cause : Cause) : Failure :=
  .condition (.hookFailed c.phase.key c.site reason) c.site.location frames (some c.site) cause

/-- The code of the call raises the failure. -/
def Raises (c : HookRun) (scope : ModuleScope) (w : World) (f : Failure) (w' : World) : Prop :=
  c.code scope (c.begun scope w) = (.error (.failed f), w')

/-- Calls of hooks of one module, each in the course of the code of the one before it; the first
is made in the world `w` and the last, `inner`, in the world `w'`. -/
inductive Nested (scope : ModuleScope) (inner : HookRun) (w' : World) :
    List HookRun → World → Prop
  | innermost : Nested scope inner w' [inner] w'
  | within {outer c : HookRun} {calls : List HookRun} {w w₁ : World} :
      InCourse (c.run scope) w₁ (outer.code scope) (outer.begun scope w) →
      Nested scope inner w' (c :: calls) w₁ → Nested scope inner w' (outer :: c :: calls) w

variable {c : HookRun} {scope : ModuleScope} {w w' : World} {f : Failure}

theorem isInternal_site (c : HookRun) : c.site.isInternal ≠ some true := nofun

/-- A call fails exactly if its code raises something, and wraps that. -/
theorem run_eq_error_iff : c.run scope w = (.error (.failed f), w') ↔
    ∃ e, c.Raises scope w e w' ∧ f = c.failure e := by
  unfold run Raises code begun
  rw [Engine.runHook_apply]
  rcases c.engine.callHook c.phase c.hook c.subject c.env scope _ with ⟨(e | _) | env, w₁⟩
  · constructor
    · intro h
      cases h
      exact ⟨e, rfl, rfl⟩
    · rintro ⟨e', h, rfl⟩
      cases h
      rfl
  · exact iff_of_false nofun fun ⟨e, h, _⟩ => nomatch h
  · exact iff_of_false nofun fun ⟨e, h, _⟩ => nomatch h

/-! ## One call -/

/-- A call wraps what can be described, and keeps the own frames with its place behind them. -/
theorem failure_of_describe {own : List Frame} {reason : String} (h : f.OwnFrames own)
    (hreason : f.describe = .ok reason) :
    c.failure f = c.wrapped reason (own ++ [c.site]) f.asCause := by
  rw [failure, Failure.ofHook_of_describe hreason, h.prune_eq, wrapped]

/-- All frames of what a call wraps are own frames. -/
theorem ownFrames_wrapped {own : List Frame} {reason : String} {cause : Cause}
    (h : f.OwnFrames own) : (c.wrapped reason (own ++ [c.site]) cause).OwnFrames
      (own ++ [c.site]) := by
  refine .of_user ?_
  show ∀ frame ∈ own ++ [c.site], _
  rw [List.forall_mem_append]
  exact ⟨h.user, List.forall_mem_singleton.mpr c.isInternal_site⟩

/-- A call whose code raises a value without a text stops with the attempt to describe it. -/
theorem failure_of_fault {v : Value} {fault : TextFault} (h : v.toText = .error fault) :
    c.failure (.thrown v) = .ofFault fault :=
  Failure.ofHook_of_describe_eq_error (Failure.describe_eq_error_iff.mpr ⟨v, fault, rfl, h, rfl⟩)

/-! ## Any number of calls -/

/-- **Nested calls** keep the own frames of what is raised in the innermost of them, and put
their places behind them, the innermost first. -/
theorem Nested.raises {inner : HookRun} {calls : List HookRun} {w w₁ w₂ : World} {e : Failure}
    {own : List Frame} (h : Nested scope inner w₁ calls w) (he : inner.Raises scope w₁ e w₂)
    (hwords : e.HasWords) (hown : e.OwnFrames own) :
    ∃ outer rest, calls = outer :: rest ∧ ∃ f reason cause, outer.Raises scope w f w₂ ∧
      outer.failure f = outer.wrapped reason (own ++ (calls.map site).reverse) cause ∧
      (outer.failure f).OwnFrames (own ++ (calls.map site).reverse) := by
  have hone {c : HookRun} {f : Failure} {own : List Frame} (hwords : f.HasWords)
      (hown : f.OwnFrames own) : ∃ reason cause,
      c.failure f = c.wrapped reason (own ++ [c.site]) cause ∧
        (c.failure f).OwnFrames (own ++ [c.site]) := by
    obtain ⟨reason, hreason⟩ := hwords
    have hwraps := failure_of_describe (c := c) hown hreason
    exact ⟨reason, _, hwraps, hwraps ▸ ownFrames_wrapped hown⟩
  induction h with
  | @innermost =>
    obtain ⟨reason, cause, hwraps, hall⟩ := hone (c := inner) hwords hown
    exact ⟨inner, [], rfl, e, reason, cause, he, hwraps, hall⟩
  | @within outer c calls w w₁ hcourse _ ih =>
    obtain ⟨_, _, hcons, f, -, -, hf, -, hown⟩ := ih
    obtain ⟨rfl, rfl⟩ := List.cons.inj hcons
    have hraises : outer.Raises scope w (c.failure f) w₂ :=
      hcourse.stops (run_eq_error_iff.mpr ⟨f, hf, rfl⟩)
    -- All frames of the inner call's failure are own ones, its place among them.
    obtain ⟨reason, cause, hwraps, hall⟩ := hone (c := outer) Failure.hasWords_ofHook hown
    rw [List.map_cons, List.reverse_cons, ← List.append_assoc]
    exact ⟨outer, _, rfl, _, reason, cause, hraises, hwraps, hall⟩

/-- The innermost of nested calls is the only one, or it is in the course of the code of the
innermost of those around it. -/
theorem Nested.around {inner : HookRun} {calls : List HookRun} {w w₁ : World}
    (h : Nested scope inner w₁ calls w) : calls = [inner] ∧ w₁ = w ∨
      ∃ around w₂, Nested scope around w₂ calls.dropLast w ∧
        InCourse (inner.run scope) w₁ (around.code scope) (around.begun scope w₂) := by
  induction h with
  | innermost => exact .inl ⟨rfl, rfl⟩
  | @within outer c calls w _ hcourse hinside ih =>
    rcases ih with ⟨hcalls, rfl⟩ | ⟨around, w₂, haround, hinner⟩
    · obtain ⟨rfl, rfl⟩ := List.cons.inj hcalls
      exact .inr ⟨outer, w, .innermost, hcourse⟩
    · refine .inr ⟨around, w₂, ?_, hinner⟩
      cases calls with
      | nil => cases haround
      | cons d more => exact .within hcourse haround

/-- **A value without a text** leaves nested calls without the place of the innermost, in which it
was raised. -/
theorem Nested.raises_of_fault {inner outer : HookRun} {rest : List HookRun} {w w₁ w₂ : World}
    {v : Value} {fault : TextFault} (h : Nested scope inner w₁ (outer :: rest) w)
    (he : inner.Raises scope w₁ (.thrown v) w₂) (hv : v.toText = .error fault) :
    ∃ f, outer.Raises scope w f w₂ ∧ (rest = [] → outer.failure f = .ofFault fault) ∧
      (rest ≠ [] → ∃ reason cause, outer.failure f
        = outer.wrapped reason ((outer :: rest).dropLast.map site).reverse cause) := by
  rcases h.around with ⟨hcalls, rfl⟩ | ⟨around, w₃, haround, hcourse⟩
  · obtain ⟨rfl, rfl⟩ := List.cons.inj hcalls
    exact ⟨_, he, fun _ => failure_of_fault hv, fun hne => (hne rfl).elim⟩
  · -- the calls around the innermost raise the attempt to describe the value
    have hraises : around.Raises scope w₃ (.ofFault fault) w₂ :=
      hcourse.stops (run_eq_error_iff.mpr ⟨_, he, (failure_of_fault hv).symm⟩)
    obtain ⟨_, _, hcons, f, reason, cause, hf, hwraps, -⟩ :=
      haround.raises hraises (Failure.hasWords_ofFault fault) (.of_user nofun)
    cases rest with
    | nil => cases hcons
    | cons c more =>
      obtain ⟨rfl, -⟩ := List.cons.inj hcons
      exact ⟨f, hf, nofun, fun _ => ⟨reason, cause, hwraps⟩⟩

/-- What a call wraps is held by what it stops with. -/
theorem sizeOf_lt_failure (c : HookRun) (h : f.HasWords) : sizeOf f < sizeOf (c.failure f) := by
  obtain ⟨reason, hreason⟩ := h
  rw [failure, Failure.ofHook_of_describe hreason]
  cases f with
  | thrown v =>
    cases v <;> simp [Failure.asCause] <;> omega
  | _ => simp [Failure.asCause]; omega

/-- No call of a hook of the module fails in the course of the code of the call. -/
def RaisesItself (c : HookRun) (scope : ModuleScope) (w : World) : Prop :=
  ∀ (d : HookRun) (w' : World), InCourse (d.run scope) w' (c.code scope) (c.begun scope w) →
    ∀ f, (d.run scope w').1 ≠ .error (.failed f)

/-- What cannot be described does not come from another call. -/
theorem raisesItself_of_not_hasWords (h : c.Raises scope w f w') (hwords : ¬ f.HasWords) :
    c.RaisesItself scope w := by
  intro d w₁ hcourse g hg
  have hrun : d.run scope w₁ = (.error (.failed g), (d.run scope w₁).2) := Prod.ext hg rfl
  obtain ⟨e, -, rfl⟩ := run_eq_error_iff.mp hrun
  obtain ⟨hf, -⟩ := Prod.mk.inj (h.symm.trans (hcourse.stops hrun))
  cases hf
  exact hwords Failure.hasWords_ofHook

/-- Whatever the code of a call raises was raised in nested calls, by the code of the innermost
itself. -/
theorem exists_nested (h : c.Raises scope w f w') : ∃ inner rest w₂ e,
    Nested scope inner w₂ (c :: rest) w ∧ inner.Raises scope w₂ e w' ∧
      inner.RaisesItself scope w₂ := by
  -- The failure of a call holds what its code raised, so it is larger than that.
  induction hsize : sizeOf f using Nat.strongRecOn generalizing c w f with
  | _ size ih =>
    subst hsize
    by_cases hself : c.RaisesItself scope w
    · exact ⟨c, [], w, f, .innermost, h, hself⟩
    · simp only [RaisesItself, not_forall, not_not] at hself
      obtain ⟨d, w₁, hcourse, g, hg⟩ := hself
      have hrun : d.run scope w₁ = (.error (.failed g), (d.run scope w₁).2) := Prod.ext hg rfl
      obtain ⟨rfl, rfl⟩ : f = g ∧ w' = (d.run scope w₁).2 := by
        have hstops := hcourse.stops hrun
        unfold Raises at h
        rw [hstops] at h
        cases h
        exact ⟨rfl, rfl⟩
      obtain ⟨e, he, rfl⟩ := run_eq_error_iff.mp hrun
      by_cases hwords : e.HasWords
      · obtain ⟨inner, rest, w₂, e', hnested, hraises, hself⟩ :=
          ih _ (d.sizeOf_lt_failure hwords) he rfl
        exact ⟨inner, d :: rest, w₂, e', .within hcourse hnested, hraises, hself⟩
      · exact ⟨d, [d], w₁, e, .within hcourse .innermost, he,
          raisesItself_of_not_hasWords he hwords⟩

end HookRun

/-- **What leaves hooks that are called in hooks of one module.**  A failure that is raised in
nested calls, and can be described, comes to the pipeline as the failure of the outermost hook,
with the place of that call as its origin.  Its frames are those that the failure has of user code,
none if it carries none, and then the places of all the calls, the innermost first; none of them is
internal.

What cannot be described is a value without a text.  Raised in one call, it comes to the pipeline
as the attempt to describe it; raised in nested ones, as the failure of the outermost hook without
the place of the innermost call.

Every call that fails is the outermost of such calls, in the innermost of which the failure is
raised by the code itself. -/
theorem Engine.unwinding_laws (g : Engine) (o : Opening) (evaluate : EvaluateBody) (w : World) :
    (∀ (outer inner : HookRun) (rest : List HookRun) (w₁ w₂ w₃ : World) (e : Failure),
      InCourse (outer.run o.scope) w₁ (g.live o evaluate) w →
      HookRun.Nested o.scope inner w₂ (outer :: rest) w₁ → inner.Raises o.scope w₂ e w₃ →
      e.HasWords →
      ∃ own reason cause, e.OwnFrames own ∧ (e.frames? = none → own = []) ∧
        (∀ frame ∈ own ++ ((outer :: rest).map HookRun.site).reverse,
          frame.isInternal ≠ some true) ∧
        g.live o evaluate w = (.error (.failed (outer.wrapped reason
          (own ++ ((outer :: rest).map HookRun.site).reverse) cause)), w₃)) ∧
    (∀ (outer inner : HookRun) (rest : List HookRun) (w₁ w₂ w₃ : World) (e : Failure),
      InCourse (outer.run o.scope) w₁ (g.live o evaluate) w →
      HookRun.Nested o.scope inner w₂ (outer :: rest) w₁ → inner.Raises o.scope w₂ e w₃ →
      ¬ e.HasWords →
      ∃ v fault, e = .thrown v ∧ v.toText = .error fault ∧
        (rest = [] → g.live o evaluate w = (.error (.failed (.ofFault fault)), w₃)) ∧
        (rest ≠ [] → ∃ reason cause, g.live o evaluate w = (.error (.failed (outer.wrapped reason
          ((outer :: rest).dropLast.map HookRun.site).reverse cause)), w₃))) ∧
    ∀ (outer : HookRun) (w₁ w₃ : World) (f : Failure),
      outer.run o.scope w₁ = (.error (.failed f), w₃) →
      ∃ inner rest w₂ e, HookRun.Nested o.scope inner w₂ (outer :: rest) w₁ ∧
        inner.Raises o.scope w₂ e w₃ ∧ inner.RaisesItself o.scope w₂ := by
  refine ⟨?_, ?_, ?_⟩
  · intro outer inner rest w₁ w₂ w₃ e hlive hnested he hwords
    have hown := e.ownFrames_takeWhile
    obtain ⟨_, _, hcons, f, reason, cause, hf, hwraps, hall⟩ := hnested.raises he hwords hown
    obtain ⟨rfl, rfl⟩ := List.cons.inj hcons
    refine ⟨_, reason, cause, hown, hown.eq_nil, hall.user, ?_⟩
    exact hlive.stops (HookRun.run_eq_error_iff.mpr ⟨f, hf, hwraps.symm⟩)
  · intro outer inner rest w₁ w₂ w₃ e hlive hnested he hwords
    obtain ⟨_, hdescribe⟩ := Failure.not_hasWords_iff.mp hwords
    obtain ⟨v, fault, rfl, hv, -⟩ := Failure.describe_eq_error_iff.mp hdescribe
    obtain ⟨f, hf, hone, hmore⟩ := hnested.raises_of_fault he hv
    have hstops := hlive.stops (HookRun.run_eq_error_iff.mpr ⟨f, hf, rfl⟩)
    refine ⟨v, fault, rfl, hv, fun hrest => hone hrest ▸ hstops, fun hrest => ?_⟩
    obtain ⟨reason, cause, hwraps⟩ := hmore hrest
    exact ⟨reason, cause, hwraps ▸ hstops⟩
  · intro outer w₁ w₃ f h
    obtain ⟨e, he, -⟩ := HookRun.run_eq_error_iff.mp h
    exact HookRun.exists_nested he

/-! ## A hook that is called in the expansion of another one -/

namespace Expanding

/-- A value without a text. -/
def mute : Value := .record [("toString", .int 1)]

/-- One hook, which expands to the definition of a function, and one that throws the value. -/
def library : FormLibrary :=
  ⟨[], [⟨"Mute.__on_definition__", fun _ => true, ⟨[.stop (.thrown mute)], none⟩⟩,
    ⟨"Expand.__before_compile__", fun _ => true,
      ⟨[], some (.act (some 7) (.define .function ⟨"f", 0⟩ none))⟩⟩]⟩

/-- A module that registers the first hook before compilation, and another one for definitions. -/
def body (hook : String) : List Form :=
  [.act none (.write "on_definition" (.text hook)),
    .act none (.write "before_compile" (.text "Expand"))]

def host : Host where
  options := .default "/work"
  observe _ := none
  warn _ := none
  listener := none
  loader := none

def env : CompileEnv := ⟨"expanding", 1, none, none, []⟩

/-- The module, opened. -/
def opening : Opening where
  scope := ⟨"Expanding", 0, { env with module := some "Expanding", compiling := ["Expanding"] }⟩
  location := ⟨"expanding", 1⟩
  warnings := []

/-- The world after it has been opened, in one where nothing had been. -/
def opened : World :=
  ((library.engine host 2).openModule "Expanding" env ⟨.empty, .empty, ⟨"run", []⟩, []⟩).2

/-- The life of the module. -/
def life (hook : String) : Run CompiledModule :=
  (library.engine host 2).live opening (library.evaluation (library.engine host 2) (body hook))

/-- The call of the hook before compilation, in the context that the body left. -/
def outer : HookRun :=
  ⟨library.engine host 2, .beforeCompile, .none, opening.scope.env, .text "Expand"⟩

/-- The call of the hook for the definition in its expansion. -/
def inner (hook : String) : HookRun :=
  ⟨library.engine host 1, .onDefinition,
    .definition
      { kind := .function, pair := ⟨"f", 0⟩, clauses := [], location := ⟨"expanding", 7⟩ },
    { opening.scope.env with line := 7, function := some ⟨"f", 0⟩ }, .text hook⟩

/-- What is raised by the call of a hook that there is not. -/
def undefined : Failure := .undefinedCall "Missing" "__on_definition__" 2

theorem nested {hook : String} (h : hook = "Missing" ∨ hook = "Mute") :
    ∃ w₁ w₂, InCourse (outer.run opening.scope) w₁ (life hook) opened ∧
      HookRun.Nested opening.scope (inner hook) w₂ [outer, inner hook] w₁ := by
  -- with the name of the hook at hand the runs are computed
  rcases h with rfl | rfl <;>
  -- The body is evaluated and the phase moved before the hooks are read and the first is called.
  exact ⟨_, _, .rest rfl (.rest rfl (.rest rfl (.first (.rest rfl (.first .here))))),
    -- The hook for definitions that comes first is one of the compiler's own.
    .within (FormLibrary.inCourse_expansion rfl (by decide) rfl rfl
      (.first (.first (Engine.inCourse_define rfl (.rest rfl (.rest rfl (.first .here)))))))
      .innermost⟩

/-- What is raised has a frame of user code, which is kept, and an internal one behind it.  The
place of the inner call is lost if what is raised in it has no text. -/
theorem life_stops :
    (∃ w₁ w₂ w₃ reason cause, InCourse (outer.run opening.scope) w₁ (life "Missing") opened ∧
      HookRun.Nested opening.scope (inner "Missing") w₂ [outer, inner "Missing"] w₁ ∧
      (inner "Missing").Raises opening.scope w₂ undefined w₃ ∧
      life "Missing" opened = (.error (.failed (.condition
        (.hookFailed "before_compile" outer.site reason) (some ⟨"expanding", 1⟩)
        [{ module := "Missing", function := "__on_definition__", arity := 2 },
          { module := "Missing", function := "__on_definition__", arity := 2,
            location := some ⟨"expanding", 7⟩ },
          { module := "Expand", function := "__before_compile__", arity := 1,
            location := some ⟨"expanding", 1⟩ }]
        (some outer.site) cause)), w₃)) ∧
    ∃ w₁ w₂ w₃ reason cause, InCourse (outer.run opening.scope) w₁ (life "Mute") opened ∧
      HookRun.Nested opening.scope (inner "Mute") w₂ [outer, inner "Mute"] w₁ ∧
      (inner "Mute").Raises opening.scope w₂ (.thrown mute) w₃ ∧
      life "Mute" opened = (.error (.failed (.condition
        (.hookFailed "before_compile" outer.site reason) (some ⟨"expanding", 1⟩)
        [{ module := "Expand", function := "__before_compile__", arity := 1,
            location := some ⟨"expanding", 1⟩ }]
        (some outer.site) cause)), w₃) := by
  have hlaws (hook : String) := Engine.unwinding_laws (library.engine host 2) opening
    (library.evaluation (library.engine host 2) (body hook)) opened
  constructor
  · obtain ⟨w₁, w₂, hlive, hnested⟩ := nested (.inl rfl)
    have hraises : (inner "Missing").Raises opening.scope w₂ undefined _ := rfl
    obtain ⟨own, reason, cause, hown, -, -, hstops⟩ :=
      (hlaws "Missing").1 _ _ _ _ _ _ _ hlive hnested hraises ⟨_, rfl⟩
    obtain rfl : own = [{ module := "Missing", function := "__on_definition__", arity := 2 }] :=
      List.append_cancel_right ((hown.prune_eq (inner "Missing").site).symm.trans rfl)
    exact ⟨w₁, w₂, _, reason, cause, hlive, hnested, hraises, hstops⟩
  · obtain ⟨w₁, w₂, hlive, hnested⟩ := nested (.inr rfl)
    have hraises : (inner "Mute").Raises opening.scope w₂ (.thrown mute) _ :=
      FormLibrary.callHook_stop rfl (by decide) rfl
    have hmute : ¬ (Failure.thrown mute).HasWords := Failure.not_hasWords_iff.mpr ⟨_, by rfl⟩
    obtain ⟨-, -, -, -, -, hstops⟩ :=
      (hlaws "Mute").2.1 _ _ _ _ _ _ _ hlive hnested hraises hmute
    obtain ⟨reason, cause, hstops⟩ := hstops nofun
    exact ⟨w₁, w₂, _, reason, cause, hlive, hnested, hraises, hstops⟩

end Expanding
end ModuleBuild
