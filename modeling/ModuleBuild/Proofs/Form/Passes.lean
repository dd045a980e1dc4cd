import ModuleBuild.Proofs.Form.Rounds

/-! # Passes of hooks

A hook that is applied leaves the context that it was called in, and one that expands leaves the
one in which the evaluation of its expansion ends (`FormLibrary.LeavesContext`).  In every
compilation the hooks before and after compilation are called in one pass each, from the last
registered to the first, and the context is handed on from call to call and from the one pass to
the other (`compile_passes`).
-/
namespace ModuleBuild

open Run

namespace FormLibrary

/-- The context that a hook leaves if it returns, given what is logged when it is called. -/
inductive LeavesContext (lib : FormLibrary) (host : Host) (phase : HookPhase) (scope : ModuleScope)
    (env : CompileEnv) (hook : Value) (log : List Event) : CompileEnv → Prop where
  /-- A hook of the compiler's own leaves the context that it was called in. -/
  | builtin {target : HookTarget} (named : HookTarget.ofValue? phase hook = some target)
      (own : target.module = compilerHookModule) :
      LeavesContext lib host phase scope env hook log env
  /-- So does a hook that is applied. -/
  | applied {target : HookTarget} {found : Hook}
      (named : HookTarget.ofValue? phase hook = some target)
      (foreign : target.module ≠ compilerHookModule) (answers : lib.hook? target log = some found)
      (applied : found.expansion = none) : LeavesContext lib host phase scope env hook log env
  /-- A hook that expands leaves the context that the evaluation of its expansion ends in. -/
  | expanded {target : HookTarget} {found : Hook} {f : Form} {depth : Nat} {value : FormResult}
      {w w' : World} {left : CompileEnv} (named : HookTarget.ofValue? phase hook = some target)
      (foreign : target.module ≠ compilerHookModule) (answers : lib.hook? target log = some found)
      (expands : found.expansion = some f)
      (evaluated : lib.evalBody (lib.engine host depth) (.value .null) env scope [f] w
        = (.ok (value, left), w')) : LeavesContext lib host phase scope env hook log left

/-- **A hook that returns** leaves its context, or that of its expansion. -/
theorem leavesContext_of_runHook {lib : FormLibrary} {host : Host} {depth : Nat}
    {phase : HookPhase} {subject : HookSubject} {scope : ModuleScope} {env left : CompileEnv}
    {hook : Value} {w w' : World}
    (h : (lib.engine host depth).runHook phase subject scope env hook w = (.ok left, w')) :
    lib.LeavesContext host phase scope env hook
      (w.log ++ [.fired phase scope.module hook env]) left := by
  let w₀ : World := { w with log := w.log ++ [.fired phase scope.module hook env] }
  have hcall : (lib.engine host depth).callHook phase hook subject env scope w₀
      = (.ok left, w') := by
    rw [Engine.runHook_apply] at h
    split at h
    · cases h
    · exact h
  unfold Engine.callHook at hcall
  cases hnamed : HookTarget.ofValue? phase hook with
  | none =>
    rw [hnamed] at hcall
    cases hcall
  | some target =>
    rw [hnamed] at hcall
    by_cases hown : target.module = compilerHookModule
    · simp only [hown, if_true] at hcall
      obtain ⟨_, _, -, hcall⟩ := bind_apply_eq_ok.mp hcall
      cases hcall
      exact .builtin hnamed hown
    · simp only [hown, if_false] at hcall
      cases depth with
      | zero => cases hcall
      | succ depth =>
        change lib.respond (lib.engine host depth) phase target subject env scope
          (lib.hook? target w₀.log) w₀ = (.ok left, w') at hcall
        cases hanswers : lib.hook? target w₀.log with
        | none =>
          rw [hanswers] at hcall
          cases hcall
        | some found =>
          rw [hanswers] at hcall
          obtain ⟨_, _, -, hcall⟩ := bind_apply_eq_ok.mp hcall
          obtain ⟨_, w₁, -, hcall⟩ := bind_apply_eq_ok.mp hcall
          cases hexpansion : found.expansion with
          | none =>
            rw [hexpansion] at hcall
            cases hcall
            exact .applied hnamed hown hanswers hexpansion
          | some f =>
            rw [hexpansion] at hcall
            obtain ⟨⟨value, left'⟩, w₂, heval, hcall⟩ := bind_apply_eq_ok.mp hcall
            cases hcall
            exact .expanded hnamed hown hanswers hexpansion heval

/-- **Passes of hooks.**  A compilation settles.  In every compilation of a body that opens its
module, also in the midst of others, the hooks before and after compilation are called in one pass
each, the opening and the closing of the module calling none.  A pass calls the hooks that are
registered when it starts, whatever they register, from the last registered to the first and up to
the first that fails.  The first hook before compilation is called in the context that the body
left, the first one after it in the context that the pass before compilation left, and each other
one in the context that the hook before it left.

Hooks are registered in the order in which they are written.  It is as well if the module has been
opened earlier, and other modules since. -/
theorem compile_passes (lib : FormLibrary) (host : Host) (name : String) (env : CompileEnv)
    (body : List Form) (w : World) :
    (lib.compile host name env body w).1 ≠ .error .exhausted ∧
    (∀ depth, (lib.engine host depth).RegistersHooks) ∧
    (∀ depth o w₁, (lib.engine host depth).openModule name env w = (.ok o, w₁) →
      ((lib.engine host depth).compile name env
        (lib.evaluation (lib.engine host depth) body) w).1 ≠ .error .exhausted →
      (lib.engine host depth).PassesHooks o (lib.evaluation (lib.engine host depth) body) w₁ ∧
      w.Silent w₁ ∧
      World.Silent ((lib.engine host depth).live o
        (lib.evaluation (lib.engine host depth) body) w₁).2
        ((lib.engine host depth).compile name env
          (lib.evaluation (lib.engine host depth) body) w).2) ∧
    (∀ depth (o : Opening), o.scope.StandsIn w →
      ((lib.engine host depth).finish o
        (lib.evaluation (lib.engine host depth) body) w).1 ≠ .error .exhausted →
      (lib.engine host depth).PassesHooks o (lib.evaluation (lib.engine host depth) body) w ∧
      World.Silent ((lib.engine host depth).live o
        (lib.evaluation (lib.engine host depth) body) w).2
        ((lib.engine host depth).finish o (lib.evaluation (lib.engine host depth) body) w).2) ∧
    ∀ depth phase subject (scope : ModuleScope) env hook w₁ left w₂,
      (lib.engine host depth).runHook phase subject scope env hook w₁ = (.ok left, w₂) →
        lib.LeavesContext host phase scope env hook
          (w₁.log ++ [.fired phase scope.module hook env]) left := by
  have hfinish (depth : Nat) (o : Opening) (w₁ : World) (hs : o.scope.StandsIn w₁)
      (hne : ((lib.engine host depth).finish o
        (lib.evaluation (lib.engine host depth) body) w₁).1 ≠ .error .exhausted) :
      (lib.engine host depth).PassesHooks o (lib.evaluation (lib.engine host depth) body) w₁ ∧
      World.Silent ((lib.engine host depth).live o
        (lib.evaluation (lib.engine host depth) body) w₁).2
        ((lib.engine host depth).finish o
          (lib.evaluation (lib.engine host depth) body) w₁).2 := by
    have hfire := lib.firesKeeping_engine host depth
    obtain ⟨-, hpasses, hretires⟩ :=
      Engine.finish_of_standing hfire (evaluatesKeeping_evaluation hfire body) hs hne
    exact ⟨hpasses, hretires.silent⟩
  refine ⟨compile_ne_exhausted lib host name body env w, fun _ => Engine.registersHooks _,
    fun depth o w₁ hopen hne => ?_, fun depth o => hfinish depth o w,
    fun _ _ _ _ _ _ _ _ _ => leavesContext_of_runHook⟩
  obtain ⟨hopened, hs, -, -⟩ := Engine.opened_frame hopen
  rw [Engine.compile_of_openModule hopen] at hne ⊢
  obtain ⟨hpasses, hclosed⟩ := hfinish depth o w₁ hs hne
  exact ⟨hpasses, hopened, hclosed⟩

/-! ## A context that is handed on -/

namespace Passing

/-- One hook registers another one for its own phase, and one expands to a form that moves the
context to another line. -/
def library : FormLibrary :=
  ⟨[], [⟨"Late.__before_compile__", fun _ => true, ⟨[], none⟩⟩,
    ⟨"Apply.__before_compile__", fun _ => true,
      ⟨[.evaluate (.act none (.write "before_compile" (.text "Late")))], none⟩⟩,
    ⟨"Expand.__before_compile__", fun _ => true, ⟨[], some (.act (some 7) .nothing)⟩⟩,
    ⟨"Watch.__after_compile__", fun _ => true, ⟨[], none⟩⟩,
    ⟨"Fail.__after_compile__", fun _ => true,
      ⟨[.stop (.exception .plain "enough" none .none)], none⟩⟩]⟩

/-- A module that registers two hooks before compilation and three after it. -/
def body : List Form :=
  [.act none (.write "before_compile" (.text "Apply")),
    .act none (.write "before_compile" (.text "Expand")),
    .act none (.write "after_compile" (.text "Watch")),
    .act none (.write "after_compile" (.text "Fail")),
    .act (some 5) (.write "after_compile" (.text "Watch"))]

def host : Host where
  options := .default "/work"
  observe _ := none
  warn _ := none
  listener := none
  loader := none

def env : CompileEnv := ⟨"passes", 1, none, none, []⟩

/-- The world before: nothing is open or loaded. -/
def before : World := ⟨.empty, .empty, ⟨"run", []⟩, []⟩

/-- The engine for the body. -/
def engine : Engine := library.engine host (library.depth body)

/-- The world when the compilation is over. -/
def final : World := (engine.compile "Passes" env (library.evaluation engine body) before).2

/-- The hooks that were called about a topic, each with the line of the context. -/
def called (topic : HookTopic) : List (Option String × Int) :=
  (before.calls "Passes" topic final).map fun c => (c.hook.toText.toOption, c.env.line)

theorem shown : (engine.openModule "Passes" env before).1.isOk = true ∧
    called .before = [(some "Expand", 5), (some "Apply", 7)] ∧
    called .after = [(some "Watch", 7), (some "Fail", 7)] := by
  decide +kernel

end Passing

open Passing in
/-- The hook that expands is called first, in the context that the body left, and hands on that of
its expansion.  The hook that is registered in the pass is not called, and neither is the one that
is registered before one that fails. -/
theorem compile_passes_threaded : ∃ o w₁,
    Passing.engine.openModule "Passes" Passing.env Passing.before = (.ok o, w₁) ∧
    Passing.engine.PassesHooks o (library.evaluation Passing.engine body) w₁ ∧
    called .before = [(some "Expand", 5), (some "Apply", 7)] ∧
    called .after = [(some "Watch", 7), (some "Fail", 7)] := by
  obtain ⟨hne, -, hall, -⟩ := compile_passes library Passing.host "Passes" Passing.env body
    Passing.before
  obtain ⟨hopens, hcalled⟩ := Passing.shown
  rcases hopen : Passing.engine.openModule "Passes" Passing.env Passing.before with ⟨e | o, w₁⟩
  · rw [hopen] at hopens
    cases hopens
  · exact ⟨o, w₁, rfl, (hall _ o w₁ hopen hne).1, hcalled⟩

end FormLibrary
end ModuleBuild
