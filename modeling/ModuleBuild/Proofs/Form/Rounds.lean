import ModuleBuild.Proofs.Compile.Passes
import ModuleBuild.Proofs.Form.Isolation
import ModuleBuild.Proofs.Form.Termination

/-! # Rounds of hooks

The definitions that forms and the hooks made of them add to a module are listed along their
evaluation (`FormLibrary.bodyDefines`, `FormLibrary.firedDefines`); those of nested modules are not
among them, since they stand in tables of their own.  Code keeps the chronicle of its module
(`keeps_evalBody`), and so do the hooks, however deeply they call each other
(`firesKeeping_engine`).  So in every compilation there is one round of hooks for each pair in the
table, at its first definition (`compile_rounds`).
-/
namespace ModuleBuild

open Run

/-! ## The definitions that forms add -/

/-- The call that an action adds a definition in, and those while its hooks run. -/
def FormAction.defines (g : Engine) (fired : Engine.FireDefines) (scope : ModuleScope)
    (line : Option Int) : FormAction → World → List DefineCall
  | define kind pair clause => g.defineDefines fired scope
    { kind, pair, clauses := clause.toList, line }
  | _ => fun _ => []

namespace FormLibrary

section Defines

variable (lib : FormLibrary) (g : Engine) (fired : Engine.FireDefines)

/-- The calls while a form is evaluated; a nested module adds nothing to the one around it. -/
def formDefines (scope : ModuleScope) : Form → World → List DefineCall
  | .act line a => a.defines g fired scope line
  | _ => fun _ => []

/-- The calls while forms are evaluated in turn. -/
def bodyDefines (scope : ModuleScope) : List Form → World → List DefineCall
  | [], _ => []
  | f :: rest, w => formDefines g fired scope f w ++
    (lib.eval g scope f).after (fun _ => bodyDefines scope rest) w

/-- The calls in a step of a hook, also if it fails. -/
def stepDefines (scope : ModuleScope) (s : HookStep) (w : World) : List DefineCall :=
  s.forms.flatMap fun f => formDefines g fired scope f w

/-- The calls in the steps of a hook in turn. -/
def stepsDefines (phase : HookPhase) (subject : HookSubject) (env : CompileEnv)
    (scope : ModuleScope) : List HookStep → World → List DefineCall
  | [], _ => []
  | s :: rest, w => stepDefines g fired scope s w ++
    (lib.runStep g phase subject env scope s).after
      (fun _ => stepsDefines phase subject env scope rest) w

/-- The calls of a hook that answers. -/
def respondDefines (phase : HookPhase) (target : HookTarget) (subject : HookSubject)
    (env : CompileEnv) (scope : ModuleScope) : Option Hook → World → List DefineCall
  | none => fun _ => []
  | some hook => (Run.record (.dispatched target phase.arity env.line)).after fun _ w =>
    lib.stepsDefines g fired phase subject env scope hook.steps w ++
      (lib.runSteps g phase subject env scope hook.steps).after
        (fun _ => lib.bodyDefines g fired scope hook.expansion.toList) w

end Defines

/-- The calls of the hooks that may call each other to a depth. -/
def firedDefines (lib : FormLibrary) (host : Host) : Nat → Engine.FireDefines
  | 0 => fun _ _ _ _ _ _ => []
  | depth + 1 => fun phase target subject env scope w =>
    lib.respondDefines (lib.engine host depth) (lib.firedDefines host depth) phase target subject
      env scope (lib.hook? target w.log) w

/-- The calls that add definitions to an opened module while its body is compiled. -/
def defines (lib : FormLibrary) (host : Host) (depth : Nat) (o : Opening) (body : List Form) :
    World → List DefineCall :=
  let g := lib.engine host depth
  let fired := lib.firedDefines host depth
  g.lifeDefines fired o (lib.evaluation g body) fun _ scope => lib.bodyDefines g fired scope body

/-! ## Forms keep the chronicle of their module -/

variable {lib : FormLibrary} {g : Engine} {host : Host} {depth : Nat}
  {fired : Engine.FireDefines} {scope : ModuleScope}

/-- What leaves the entries and the names of open modules alone keeps their chronicles. -/
theorem keeps_of_bypass {α : Type} {r : Run α} (hleaves : Within (World.Leaves none) r)
    (hbypasses : Within World.Bypasses r) : Keeps scope r fun _ => [] := by
  refine along_of_within fun w hne hs _ => ?_
  have hbypass := hbypasses w hne
  obtain ⟨p, e, he, hopen⟩ := hs.live
  have he' : (r w).2.registry.find? scope.ticket = some e := (hleaves w hne).find? he
  obtain ⟨hopened, hcalls⟩ := hbypass.kept _ _ hs.opened
  exact {
    stands := ⟨hopened, p, e, he', hopen⟩
    grows := hbypass.grows
    apart := fun m t _ => hbypass.kept m t
    pairs := by
      rw [World.pairsOf_of_find? he, World.pairsOf_of_find? he', DefineCall.news_nil,
        List.append_nil]
    others := fun topic _ _ => hcalls topic
    fires := fun _ hc => (List.not_mem_nil hc).elim }

theorem keeps_perform (hfire : g.FiresKeeping fired) (line : Option Int) (a : FormAction) :
    Keeps scope (a.perform lib g scope line) (a.defines g fired scope line) := by
  have hR := Engine.graded_keeps scope
  have hentry {α : Type} {r : Run α} (hr : ∀ P : RunRelation, EntryLaw scope P → P r r)
      (habides : Abides (Failure.Points fun _ => True) scope.ticket r) :
      Keeps scope r fun _ => [] :=
    keeps_of_quiet (within_quiet_of_entryLaw hr habides)
  cases a with
  | define kind pair clause =>
    exact (Engine.keeps_define hfire _).bind hR fun _ _ => along_pure hR trivial
  | write key v =>
    have hput := hentry (fun _ hP => Engine.related_putAttribute (g := g) hP rfl key v)
      (Engine.abides_putAttribute key v)
    exact hput.bind hR fun _ _ => along_pure hR trivial
  | read key =>
    exact hentry (fun _ hP => Engine.related_readAttribute hP key)
      (Engine.abides_readAttribute key)
  | declare key policy =>
    exact (hentry (fun _ hP => hP.changeAttributes _) (Engine.abides_declare key policy)).bind hR
      fun _ _ => along_pure hR trivial
  | delete key =>
    exact (hentry (fun _ hP => hP.changeAttributes _) (Engine.abides_delete key)).bind hR
      fun _ _ => along_pure hR trivial
  | recordLocal pair =>
    exact (keeps_of_quiet (Engine.within_quiet_recordLocal pair)).bind hR
      fun _ _ => along_pure hR trivial
  | call target args =>
    exact keeps_of_quiet
      (related_call (congruence_quiet scope.ticket) target args (within_quiet_emit rfl _))
  | raise message => exact along_fail hR _
  | constant v => exact along_pure hR trivial
  | nothing => exact along_pure hR trivial

mutual

/-- The evaluation of a form keeps the chronicle of the module that it stands in. -/
theorem keeps_eval (hfire : (lib.engine host depth).FiresKeeping fired) {scope : ModuleScope} :
    ∀ f : Form,
    Keeps scope (lib.eval (lib.engine host depth) scope f)
      (formDefines (lib.engine host depth) fired scope f)
  | .malformed => along_fail (Engine.graded_keeps scope) _
  | .act line a => by
    have hR := Engine.graded_keeps scope
    unfold eval formDefines
    rw [map_eq_pure_bind]
    exact (keeps_perform hfire line a).bind hR fun _ _ => along_pure hR trivial
  | .module line name body => by
    have hR := Engine.graded_keeps scope
    unfold eval formDefines
    -- the nested body keeps the chronicle of its own module
    have hbody : Engine.EvaluatesKeeping (lib.evaluation (lib.engine host depth) body)
        fun _ scope => lib.bodyDefines (lib.engine host depth) fired scope body :=
      fun env _ => keeps_evalBody hfire (.value .null) env body
    have hcompile : Keeps scope ((lib.engine host depth).compile name
        { scope.env with line := line.getD scope.env.line }
        (lib.evaluation (lib.engine host depth) body)) fun _ => [] :=
      keeps_of_bypass (lib.nested_leaves host depth name _ body)
        (Engine.bypasses_compile hfire hbody name _)
    exact hcompile.bind hR fun _ _ => along_pure hR trivial

/-- So does that of forms in turn. -/
theorem keeps_evalBody (hfire : (lib.engine host depth).FiresKeeping fired) {scope : ModuleScope}
    (value : FormResult) (env : CompileEnv) : ∀ body : List Form,
    Keeps scope (lib.evalBody (lib.engine host depth) value env scope body)
      (lib.bodyDefines (lib.engine host depth) fired scope body)
  | [] => along_pure (Engine.graded_keeps scope) trivial
  | f :: rest => by
    unfold evalBody
    exact along_bind (Engine.graded_keeps scope) (keeps_eval hfire f) fun value _ =>
      keeps_evalBody hfire value (f.leave env) rest

end

section Hooks

variable (hfire : (lib.engine host depth).FiresKeeping fired)
include hfire

theorem evaluatesKeeping_evaluation (body : List Form) :
    Engine.EvaluatesKeeping (lib.evaluation (lib.engine host depth) body)
      fun _ scope => lib.bodyDefines (lib.engine host depth) fired scope body :=
  fun env _ => keeps_evalBody hfire (.value .null) env body

theorem keeps_runSteps (phase : HookPhase) (subject : HookSubject) (env : CompileEnv)
    (steps : List HookStep) :
    Keeps scope (lib.runSteps (lib.engine host depth) phase subject env scope steps)
      (lib.stepsDefines (lib.engine host depth) fired phase subject env scope steps) := by
  have hR := Engine.graded_keeps scope
  have hnoted (n : Note) : Keeps scope (Run.record (.noted n)) fun _ => [] :=
    keeps_of_quiet (within_quiet_emit rfl _)
  have hstep (s : HookStep) :
      Keeps scope (lib.runStep (lib.engine host depth) phase subject env scope s)
        (stepDefines (lib.engine host depth) fired scope s) := by
    unfold stepDefines
    cases s with
    | evaluate f =>
      simp only [HookStep.forms, List.flatMap_singleton]
      exact (keeps_eval hfire f).bind hR fun _ _ => hnoted _
    | attempt f =>
      simp only [HookStep.forms, List.flatMap_singleton]
      exact (along_attempt (keeps_eval hfire f)).bind hR fun _ _ => hnoted _
    | stop f => exact along_fail hR f
    | note q =>
      have hanswer : Within (World.Quiet scope.ticket) (answer phase subject env scope q) :=
        related_answer (congruence_quiet scope.ticket) phase subject env scope q
      exact (keeps_of_quiet hanswer).bind hR fun _ _ => hnoted _
  induction steps with
  | nil => exact along_pure hR trivial
  | cons s rest ih => exact along_bind hR (hstep s) fun _ _ => ih

theorem keeps_respond (phase : HookPhase) (target : HookTarget) (subject : HookSubject)
    (env : CompileEnv) (answering : Option Hook) :
    Keeps scope (lib.respond (lib.engine host depth) phase target subject env scope answering)
      (lib.respondDefines (lib.engine host depth) fired phase target subject env scope
        answering) := by
  have hR := Engine.graded_keeps scope
  cases answering with
  | none => exact along_fail hR _
  | some hook =>
    unfold respond respondDefines
    refine along_bind_of_within hR (within_chronicles_of_quiet (within_quiet_emit rfl _))
      fun _ => ?_
    refine along_bind hR (keeps_runSteps hfire phase subject env _) fun _ _ => ?_
    cases hook.expansion with
    | none => exact along_pure hR trivial
    | some f =>
      exact (keeps_evalBody hfire _ env [f]).bind hR fun _ _ => along_pure hR trivial

end Hooks

/-- **Hooks keep the chronicle of the module that they are called for**, however deeply they call
each other. -/
theorem firesKeeping_engine (lib : FormLibrary) (host : Host) (depth : Nat) :
    (lib.engine host depth).FiresKeeping (lib.firedDefines host depth) := by
  induction depth with
  | zero => exact fun _ _ _ _ _ _ hne => (hne rfl).elim
  | succ depth ih =>
    intro phase target subject env scope w hne
    exact keeps_respond ih phase target subject env (lib.hook? target w.log) w hne

end FormLibrary

/-! ## The law -/

/-- The round of hooks for a definition, in a run from `w` to `w'`: the call makes the definition
the first one of its pair, and leads to the world `w₁` before any hook is called. -/
structure DefineCall.Round (c : DefineCall) (d : Definition) (w₁ w w' : World) : Prop where
  defines : c.round? = some (d, w₁)
  first : d.pair ∉ c.world.pairsOf c.scope.ticket
  started : w.log <+: c.world.log
  ended : c.after.log <+: w'.log
  function : c.env.function = some d.pair
  line : c.env.line = d.location.line
  /-- All hooks that are called about the pair in the run are called while the call is made. -/
  during : w.calls c.scope.module (.definition (some d.pair)) w'
    = c.world.calls c.scope.module (.definition (some d.pair)) c.after
  /-- They are the hooks that are registered when the round starts, in turn and in the context of
  the definition; a hook that fails is the last one. -/
  turn : ∃ last, c.engine.InTurn .onDefinition (.definition d) c.scope Engine.same c.env
    (w₁.registered c.scope.ticket .onDefinition) w₁
    (w.calls c.scope.module (.definition (some d.pair)) w') last c.after
  /-- Each of them is called, in the order of registration, if none fails. -/
  each : (∀ f, c.answer ≠ .error (.failed f)) →
    w.calls c.scope.module (.definition (some d.pair)) w'
      = (w₁.registered c.scope.ticket .onDefinition).map fun hook => ⟨hook, c.env⟩

/-- The hooks of a module are called in one round for each pair of its table, which is as in the
world `w₂`, and in no others in the run from `w` to `w'`. -/
structure ModuleScope.HasRounds (s : ModuleScope) (cs : List DefineCall) (w w₂ w' : World) :
    Prop where
  /-- The pairs of the table are those of the first definitions, each of which is made once. -/
  pairs : w₂.pairsOf s.ticket = DefineCall.news cs
  nodup : (DefineCall.news cs).Nodup
  round : ∀ p ∈ w₂.pairsOf s.ticket, ∃ c ∈ cs, ∃ d w₁, c.scope = s ∧ d.pair = p ∧ c.Round d w₁ w w'
  /-- A further clause calls nothing, and neither does a definition that is refused. -/
  known : ∀ c ∈ cs, c.round? = none → c.after.log = c.world.log
  others : ∀ p ∉ w₂.pairsOf s.ticket, w.calls s.module (.definition (some p)) w' = []

theorem DefineCall.Fires.toRound {c : DefineCall} {d : Definition} {w w₁ w' : World}
    (h : c.Fires w w') (hround : c.round? = some (d, w₁)) : c.Round d w₁ w w' := by
  obtain ⟨hnew, calls, last, hturn, hown, hall, hlast⟩ := h.round d w₁ hround
  obtain rfl := Engine.definition_of_round hround
  refine ⟨hround, hnew, h.started, h.ended, rfl, rfl, hall.trans hown.symm, ⟨last, ?_⟩, ?_⟩
  · rw [← hall] at hturn
    exact hturn
  · intro hreturns
    cases last with
    | none =>
      obtain ⟨f, hf⟩ := hlast.mp rfl
      exact (hreturns f hf).elim
    | some left => exact hall.trans hturn.calls_same

namespace FormLibrary

/-- A module that stands open with nothing defined has its rounds. -/
theorem hasRounds_of_standing (lib : FormLibrary) (host : Host) (depth : Nat) (body : List Form)
    {o : Opening} {w w₁ : World} (hopened : w.Silent w₁) (hs : o.scope.StandsIn w₁)
    (hempty : w₁.pairsOf o.scope.ticket = [])
    (hne : ((lib.engine host depth).finish o
      (lib.evaluation (lib.engine host depth) body) w₁).1 ≠ .error .exhausted) :
    o.scope.HasRounds (lib.defines host depth o body w₁) w
      ((lib.engine host depth).live o (lib.evaluation (lib.engine host depth) body) w₁).2
      ((lib.engine host depth).finish o (lib.evaluation (lib.engine host depth) body) w₁).2 := by
  have hfire := lib.firesKeeping_engine host depth
  obtain ⟨hlife, -, hretires⟩ :=
    Engine.finish_of_standing hfire (evaluatesKeeping_evaluation hfire body) hs hne
  have hclosed := hretires.silent
  have hpairs := hlife.pairs
  rw [hempty, List.nil_append] at hpairs
  refine ⟨hpairs, hpairs ▸ World.nodup_pairsOf _ _, fun p hp => ?_, fun c hc => ?_,
    fun p hp => ?_⟩
  · rw [hpairs] at hp
    obtain ⟨c, hc, rfl⟩ := List.mem_map.mp hp
    obtain ⟨hc, hnew⟩ := List.mem_filter.mp hc
    obtain ⟨⟨d, w'⟩, hround⟩ := Option.isSome_iff_exists.mp hnew
    obtain ⟨hscope, hfires⟩ := hlife.fires c hc
    have hwhole := hfires.widen hopened.grows hlife.grows hclosed.grows
      (fun _ => hopened.calls _ _) fun _ => hclosed.calls _ _
    refine ⟨c, hc, d, w', hscope, ?_, hwhole.toRound hround⟩
    rw [Engine.definition_of_round hround]
    rfl
  · exact (hlife.fires c hc).2.known
  · rw [World.calls_trans hopened.grows (hlife.grows.trans hclosed.grows),
      World.calls_trans hlife.grows hclosed.grows, hopened.calls, hclosed.calls,
      hlife.calls_definition (hpairs ▸ hp) nofun]
    rfl

/-- **Rounds of hooks for definitions.**  A compilation settles.  In every compilation of a body
that opens its module, also in the midst of others, there is one round of hooks for each pair in
the table of the module when its life ends: at the first definition of the pair and before that
is over the hooks that are registered when the round starts are called, in the order of their
registration, each once and with the line and the pair of the definition.  Rounds that start while
others are under way are rounds of their own, and nothing else calls hooks for definitions.

Hooks are registered in the order in which they are written.  It is as well if the module has been
opened earlier, and other modules since. -/
theorem compile_rounds (lib : FormLibrary) (host : Host) (name : String) (env : CompileEnv)
    (body : List Form) (w : World) :
    (lib.compile host name env body w).1 ≠ .error .exhausted ∧
    (∀ depth, (lib.engine host depth).RegistersHooks) ∧
    (∀ depth o w₁, (lib.engine host depth).openModule name env w = (.ok o, w₁) →
      ((lib.engine host depth).compile name env
        (lib.evaluation (lib.engine host depth) body) w).1 ≠ .error .exhausted →
      o.scope.HasRounds (lib.defines host depth o body w₁) w
        ((lib.engine host depth).live o (lib.evaluation (lib.engine host depth) body) w₁).2
        ((lib.engine host depth).compile name env
          (lib.evaluation (lib.engine host depth) body) w).2) ∧
    ∀ depth (o : Opening), o.scope.StandsIn w → w.pairsOf o.scope.ticket = [] →
      ((lib.engine host depth).finish o
        (lib.evaluation (lib.engine host depth) body) w).1 ≠ .error .exhausted →
      o.scope.HasRounds (lib.defines host depth o body w) w
        ((lib.engine host depth).live o (lib.evaluation (lib.engine host depth) body) w).2
        ((lib.engine host depth).finish o (lib.evaluation (lib.engine host depth) body) w).2 := by
  refine ⟨compile_ne_exhausted lib host name body env w, fun _ => Engine.registersHooks _,
    fun depth o w₁ hopen hne => ?_, fun depth o hs hempty hne => ?_⟩
  · obtain ⟨hopened, hs, hempty, -⟩ := Engine.opened_frame hopen
    rw [Engine.compile_of_openModule hopen] at hne ⊢
    exact hasRounds_of_standing lib host depth body hopened hs hempty hne
  · exact hasRounds_of_standing lib host depth body (World.conduct_silent.refl w) hs hempty hne

/-! ## A round in a round -/

namespace Rounding

/-- Whether a hook has begun to run. -/
def begun (log : List Event) : Bool :=
  log.any fun
    | .dispatched .. => true
    | _ => false

/-- The first time that the first hook is called, it registers the second one and defines a
function. -/
def library : FormLibrary :=
  ⟨[], [⟨"First.__on_definition__", fun log => !begun log,
      ⟨[.evaluate (.act none (.write "on_definition" (.text "Second"))),
        .evaluate (.act (some 4) (.define .function ⟨"h", 0⟩ none))], none⟩⟩,
    ⟨"First.__on_definition__", fun _ => true, ⟨[], none⟩⟩,
    ⟨"Second.__on_definition__", fun _ => true, ⟨[], none⟩⟩]⟩

/-- A module that registers the first hook and defines two functions, one of them twice, before it
gives up. -/
def body : List Form :=
  [.act none (.write "on_definition" (.text "First")),
    .act (some 3) (.define .function ⟨"f", 0⟩ none),
    .act (some 5) (.define .function ⟨"f", 0⟩ none),
    .act (some 6) (.define .function ⟨"g", 1⟩ none), .act none (.raise "enough")]

def host : Host where
  options := .default "/work"
  observe _ := none
  warn _ := none
  listener := none
  loader := none

def env : CompileEnv := ⟨"rounds", 1, none, none, []⟩

/-- The world before: nothing is open or loaded. -/
def before : World := ⟨.empty, .empty, ⟨"run", []⟩, []⟩

/-- The engine for the body. -/
def engine : Engine := library.engine host (library.depth body)

/-- The world when the compilation is over. -/
def final : World := (engine.compile "Rounds" env (library.evaluation engine body) before).2

/-- The modules whose hooks were called for a pair, each with the line of the call. -/
def called (p : NameArity) : List (String × Int) :=
  (before.calls "Rounds" (.definition (some p)) final).map fun c =>
    (((HookTarget.ofValue? .onDefinition c.hook).map HookTarget.module).getD "", c.env.line)

/-- The pairs of the table when the life of the module is over. -/
def table : Option (List NameArity) :=
  match engine.openModule "Rounds" env before with
  | (.ok o, w) => some ((engine.live o (library.evaluation engine body) w).2.pairsOf o.scope.ticket)
  | _ => none

theorem shown : table = some [⟨"f", 0⟩, ⟨"h", 0⟩, ⟨"g", 1⟩] ∧
    called ⟨"f", 0⟩ = [("$compiler", 3), ("First", 3)] ∧
    called ⟨"h", 0⟩ = [("$compiler", 4), ("First", 4), ("Second", 4)] ∧
    called ⟨"g", 1⟩ = [("$compiler", 6), ("First", 6), ("Second", 6)] := by
  decide +kernel

end Rounding

open Rounding in
/-- The second hook is registered while the round for the first function is under way.  It takes
part in the rounds that start later, of which the first one lies within that round. -/
theorem compile_rounds_nested : ∃ o w₁ w₂,
    Rounding.engine.openModule "Rounds" Rounding.env before = (.ok o, w₁) ∧
    o.scope.HasRounds (library.defines Rounding.host (library.depth body) o body w₁) before w₂
      final ∧
    w₂.pairsOf o.scope.ticket = [⟨"f", 0⟩, ⟨"h", 0⟩, ⟨"g", 1⟩] ∧
    called ⟨"f", 0⟩ = [("$compiler", 3), ("First", 3)] ∧
    called ⟨"h", 0⟩ = [("$compiler", 4), ("First", 4), ("Second", 4)] ∧
    called ⟨"g", 1⟩ = [("$compiler", 6), ("First", 6), ("Second", 6)] := by
  obtain ⟨hne, -, hall, -⟩ := compile_rounds library Rounding.host "Rounds" Rounding.env body
    Rounding.before
  obtain ⟨htable, hcalled⟩ := Rounding.shown
  unfold table at htable
  rcases hopen : Rounding.engine.openModule "Rounds" Rounding.env Rounding.before with ⟨e | o, w₁⟩
  · rw [hopen] at htable
    cases htable
  · rw [hopen] at htable
    exact ⟨o, w₁, _, rfl, hall _ o w₁ hopen hne, Option.some.inj htable, hcalled⟩

end FormLibrary
end ModuleBuild
