import ModuleBuild.Proofs.Compile.Calls

/-! # The definitions of a module and their hooks

The calls that add definitions to a module are listed along the runs of its code, each with the
world that it is made in (`DefineCall`).  A call whose pair is new starts a round: the hooks that
are registered then are called in turn, in the context of the definition.  While a hook runs it
may define further pairs, so that rounds nest, and it may register hooks.

What code does to the module (`ModuleScope.Chronicle`) is that it defines the pairs of the new
calls, in order, and that of the calls of hooks that are logged for the module those about a pair
are the ones of its round.  So there is one round for each pair, at its first definition, and all
hooks of the round are called before that definition is over (`DefineCall.Fires`).
-/
namespace ModuleBuild

open Run Engine

/-- A call that adds a definition to the module of a scope, and the world that it is made in. -/
structure DefineCall where
  engine : Engine
  scope : ModuleScope
  new : NewDefinition
  world : World

namespace DefineCall

/-- The definition, and the world in which it stands in the module's table before any hook is
called for it, if its pair is new. -/
def round? (c : DefineCall) : Option (Definition × World) :=
  match c.new.accept c.scope c.world with
  | .ok (d, true, w) => some (d, w)
  | _ => none

/-- What the call answers. -/
def answer (c : DefineCall) : Except Stop (Definition × Bool) :=
  (c.engine.define c.scope c.new c.world).1

/-- The world that the call leaves. -/
def after (c : DefineCall) : World := (c.engine.define c.scope c.new c.world).2

/-- The context that hooks are called in: that of the module, at the line of the definition and
with its pair. -/
def env (c : DefineCall) : CompileEnv :=
  { c.scope.env with line := c.new.line.getD c.scope.env.line, function := some c.new.pair }

/-- What hooks are called about. -/
def topic (c : DefineCall) : HookTopic := .definition (some c.new.pair)

/-- The pairs of those calls whose pairs were new, in order. -/
def news (cs : List DefineCall) : List NameArity :=
  (cs.filter fun c => c.round?.isSome).map fun c => c.new.pair

/-- The hooks that a call has called, which is made in the course of a run from `w` to `w'`. -/
structure Fires (c : DefineCall) (w w' : World) : Prop where
  started : w.log <+: c.world.log
  ended : c.after.log <+: w'.log
  /-- A further clause calls nothing, and neither does a definition that is refused. -/
  known : c.round? = none → c.after.log = c.world.log
  /-- A new pair is not in the table yet.  The hooks that are registered then are called in turn,
  and no other hooks are called about the pair in the whole run. -/
  round : ∀ d w₁, c.round? = some (d, w₁) → c.new.pair ∉ c.world.pairsOf c.scope.ticket ∧
    ∃ calls last,
      c.engine.InTurn .onDefinition (.definition d) c.scope same c.env
        (w₁.registered c.scope.ticket .onDefinition) w₁ calls last c.after ∧
      c.world.calls c.scope.module c.topic c.after = calls ∧
      w.calls c.scope.module c.topic w' = calls ∧
      (last = none ↔ ∃ f, c.answer = .error (.failed f))

theorem news_nil : news [] = [] := rfl

theorem news_append (cs cs' : List DefineCall) : news (cs ++ cs') = news cs ++ news cs' := by
  rw [news, List.filter_append, List.map_append]
  rfl

theorem news_cons_of_known {c : DefineCall} (h : c.round? = none) (cs : List DefineCall) :
    news (c :: cs) = news cs := by
  rw [news, List.filter_cons_of_neg (by rw [h]; exact Bool.false_ne_true)]
  rfl

theorem news_cons_of_new {c : DefineCall} {d : Definition} {w : World}
    (h : c.round? = some (d, w)) (cs : List DefineCall) :
    news (c :: cs) = c.new.pair :: news cs := by
  rw [news, List.filter_cons_of_pos (by rw [h]; rfl)]
  rfl

theorem mem_news {c : DefineCall} {cs : List DefineCall} (hc : c ∈ cs) {d : Definition} {w : World}
    (h : c.round? = some (d, w)) : c.new.pair ∈ news cs :=
  List.mem_map.mpr ⟨c, List.mem_filter.mpr ⟨hc, by rw [h]; rfl⟩, rfl⟩

/-- The run that a call is made in may go on, or have begun earlier, if no hooks are called about
the pair. -/
theorem Fires.widen {c : DefineCall} {w w₁ w₂ w₃ : World} (h : c.Fires w₁ w₂)
    (hstarted : w.log <+: w₁.log) (hgrows : w₁.log <+: w₂.log) (hended : w₂.log <+: w₃.log)
    (hbefore : c.round?.isSome = true → w.calls c.scope.module c.topic w₁ = [])
    (hafter : c.round?.isSome = true → w₂.calls c.scope.module c.topic w₃ = []) :
    c.Fires w w₃ where
  started := hstarted.trans h.started
  ended := h.ended.trans hended
  known := h.known
  round d w' hround := by
    obtain ⟨hnew, calls, last, hturn, hown, hall, hlast⟩ := h.round d w' hround
    have hsome : c.round?.isSome = true := by rw [hround]; rfl
    refine ⟨hnew, calls, last, hturn, hown, ?_, hlast⟩
    rw [World.calls_trans hstarted (hgrows.trans hended), World.calls_trans hgrows hended,
      hbefore hsome, hafter hsome, hall, List.nil_append, List.append_nil]

end DefineCall

/-- The module of a scope is open under the scope's ticket, and its stores can be used. -/
structure ModuleScope.StandsIn (s : ModuleScope) (w : World) : Prop where
  opened : w.registry.opened.get? s.module = some s.ticket
  live : ∃ p, w.OpenIn s.ticket p

/-- What code of the module of a scope does from one world to another, besides calling hooks
about the topics `own`, given the calls in which it adds definitions. -/
structure ModuleScope.Chronicle (s : ModuleScope) (own : HookTopic → Prop) (cs : List DefineCall)
    (w w' : World) : Prop where
  stands : s.StandsIn w'
  grows : w.log <+: w'.log
  /-- Other modules that are open stay open, and no hooks are called for them. -/
  apart : ∀ m t, m ≠ s.module → w.registry.opened.get? m = some t →
    w'.registry.opened.get? m = some t ∧ ∀ topic, w.calls m topic w' = []
  pairs : w'.pairsOf s.ticket = w.pairsOf s.ticket ++ DefineCall.news cs
  others : ∀ topic, ¬ own topic → (∀ p ∈ DefineCall.news cs, topic ≠ .definition (some p)) →
    w.calls s.module topic w' = []
  fires : ∀ c ∈ cs, c.scope = s ∧ c.Fires w w'

/-- The hooks that code calls about topics of its own are none that a new definition calls. -/
def ModuleScope.Owns (s : ModuleScope) (own : HookTopic → Prop) (w : World) : Prop :=
  ∀ p, own (.definition (some p)) → p ∈ w.pairsOf s.ticket

/-- Code keeps the chronicle of an open module. -/
def ModuleScope.Chronicles (s : ModuleScope) (own : HookTopic → Prop) (cs : List DefineCall)
    (w w' : World) : Prop :=
  s.StandsIn w → s.Owns own w → s.Chronicle own cs w w'

namespace ModuleScope

variable {s : ModuleScope} {own own' : HookTopic → Prop} {cs cs' : List DefineCall}
  {w w₁ w₂ : World}

/-- New pairs are not among those that are defined. -/
theorem Chronicle.not_mem_pairsOf (h : s.Chronicle own cs w w₁) {p : NameArity}
    (hp : p ∈ DefineCall.news cs) : p ∉ w.pairsOf s.ticket := by
  have hnodup := World.nodup_pairsOf s.ticket w₁
  rw [h.pairs] at hnodup
  exact fun hmem => (List.disjoint_of_nodup_append hnodup) hmem hp

theorem Chronicle.mem_pairsOf (h : s.Chronicle own cs w w₁) {p : NameArity}
    (hp : p ∈ w.pairsOf s.ticket ∨ p ∈ DefineCall.news cs) : p ∈ w₁.pairsOf s.ticket := by
  rw [h.pairs]
  exact List.mem_append.mpr hp

theorem Owns.later (hown : s.Owns own w) (h : s.Chronicle own' cs w w₁) : s.Owns own w₁ :=
  fun p hp => h.mem_pairsOf (.inl (hown p hp))

theorem owns_nothing (s : ModuleScope) (w : World) : s.Owns (fun _ => False) w :=
  fun _ => False.elim

/-- No hooks are called about pairs that were defined before, or will be defined later. -/
theorem Chronicle.calls_definition (h : s.Chronicle own cs w w₁) {p : NameArity}
    (hp : p ∉ DefineCall.news cs) (hother : ¬ own (.definition (some p))) :
    w.calls s.module (.definition (some p)) w₁ = [] := by
  refine h.others _ hother ?_
  rintro q hq heq
  cases heq
  exact hp hq

theorem Chronicle.append (h : s.Chronicle own cs w w₁) (h' : s.Chronicle own cs' w₁ w₂)
    (hown : s.Owns own w) : s.Chronicle own (cs ++ cs') w w₂ where
  stands := h'.stands
  grows := h.grows.trans h'.grows
  apart m t hm ht := by
    obtain ⟨ht₁, hcalls⟩ := h.apart m t hm ht
    obtain ⟨ht₂, hcalls'⟩ := h'.apart m t hm ht₁
    refine ⟨ht₂, fun topic => ?_⟩
    rw [World.calls_trans h.grows h'.grows, hcalls, hcalls', List.nil_append]
  pairs := by rw [h'.pairs, h.pairs, DefineCall.news_append, List.append_assoc]
  others topic hother hnews := by
    rw [DefineCall.news_append, List.forall_mem_append] at hnews
    rw [World.calls_trans h.grows h'.grows, h.others topic hother hnews.1,
      h'.others topic hother hnews.2, List.nil_append]
  fires := by
    have hfirst (c : DefineCall) (hc : c ∈ cs) : c.scope = s ∧ c.Fires w w₂ := by
      obtain ⟨rfl, hfires⟩ := h.fires c hc
      refine ⟨rfl, hfires.widen List.prefix_rfl h.grows h'.grows (fun _ => World.calls_self ..) ?_⟩
      intro hround
      obtain ⟨⟨d, w'⟩, hround⟩ := Option.isSome_iff_exists.mp hround
      have hnew := DefineCall.mem_news hc hround
      refine h'.calls_definition (fun hmem => ?_) fun hmem => ?_
      · exact h'.not_mem_pairsOf hmem (h.mem_pairsOf (.inr hnew))
      · exact h.not_mem_pairsOf hnew (hown _ hmem)
    have hsecond (c : DefineCall) (hc : c ∈ cs') : c.scope = s ∧ c.Fires w w₂ := by
      obtain ⟨rfl, hfires⟩ := h'.fires c hc
      refine ⟨rfl, hfires.widen h.grows h'.grows List.prefix_rfl ?_ fun _ => World.calls_self ..⟩
      intro hround
      obtain ⟨⟨d, w'⟩, hround⟩ := Option.isSome_iff_exists.mp hround
      have hnew := DefineCall.mem_news hc hround
      refine h.calls_definition (fun hmem => ?_) fun hmem => ?_
      · exact h'.not_mem_pairsOf hnew (h.mem_pairsOf (.inr hmem))
      · exact h'.not_mem_pairsOf hnew (h.mem_pairsOf (.inl (hown _ hmem)))
    exact fun c hc => (List.mem_append.mp hc).elim (hfirst c) (hsecond c)

theorem Chronicle.mono (h : s.Chronicle own cs w w₁) (howns : ∀ topic, own topic → own' topic) :
    s.Chronicle own' cs w w₁ where
  stands := h.stands
  grows := h.grows
  apart := h.apart
  pairs := h.pairs
  others topic hother := h.others topic fun hown => hother (howns topic hown)
  fires := h.fires

theorem StandsIn.of_quiet (hs : s.StandsIn w) (h : w.Quiet s.ticket w₁) : s.StandsIn w₁ where
  opened := by rw [h.calm.opened, hs.opened]
  live := h.live hs.live

theorem chronicle_of_quiet (own : HookTopic → Prop) (hs : s.StandsIn w)
    (h : w.Quiet s.ticket w₁) : s.Chronicle own [] w w₁ where
  stands := hs.of_quiet h
  grows := h.calm.silent.grows
  apart m t _ ht := ⟨by rw [h.calm.opened, ht], fun topic => h.calm.silent.calls m topic⟩
  pairs := by rw [h.pairs, DefineCall.news_nil, List.append_nil]
  others topic _ _ := h.calm.silent.calls s.module topic
  fires _ hc := (List.not_mem_nil hc).elim

theorem chronicle_of_silent (own : HookTopic → Prop) (hs : s.StandsIn w) (h : w.Silent w₁)
    (hr : w₁.registry = w.registry) : s.Chronicle own [] w w₁ where
  stands := by
    obtain ⟨p, e, he, hopen⟩ := hs.live
    exact ⟨by rw [hr, hs.opened], p, e, by rw [hr, he], hopen⟩
  grows := h.grows
  apart m t _ ht := ⟨by rw [hr, ht], h.calls m⟩
  pairs := by rw [World.pairsOf, hr, DefineCall.news_nil, List.append_nil, World.pairsOf]
  others topic _ _ := h.calls s.module topic
  fires _ hc := (List.not_mem_nil hc).elim

theorem graded_chronicles (s : ModuleScope) (own : HookTopic → Prop) :
    Graded (s.Chronicles own) where
  refl w hs _ := chronicle_of_quiet own hs ((World.conduct_quiet s.ticket).refl w)
  append h h' hs hown := by
    have hfirst := h hs hown
    exact hfirst.append (h' hfirst.stands (hown.later hfirst)) hown

end ModuleScope

namespace Run

variable {α : Type} {s : ModuleScope}

/-- Code of a module keeps its chronicle, and calls no hooks but those of its definitions. -/
def Keeps (s : ModuleScope) (r : Run α) (defines : World → List DefineCall) : Prop :=
  Along (s.Chronicles fun _ => False) (fun _ => True) r defines

theorem within_chronicles_of_quiet {own : HookTopic → Prop} {r : Run α}
    (h : Within (World.Quiet s.ticket) r) : Within (s.Chronicles own []) r :=
  fun w hne hs _ => ModuleScope.chronicle_of_quiet own hs (h w hne)

theorem keeps_of_quiet {r : Run α} (h : Within (World.Quiet s.ticket) r) :
    Keeps s r fun _ => [] := along_of_within (within_chronicles_of_quiet h)

theorem Keeps.chronicle {r : Run α} {defines : World → List DefineCall} (h : Keeps s r defines)
    {w : World} (hs : s.StandsIn w) (hne : (r w).1 ≠ .error .exhausted) :
    s.Chronicle (fun _ => False) (defines w) w (r w).2 :=
  (h w hne).1 hs (s.owns_nothing w)

end Run

namespace Engine

/-! ## The calls in a hook -/

/-- The calls that add definitions while the hooks of other modules run. -/
abbrev FireDefines : Type :=
  HookPhase → HookTarget → HookSubject → CompileEnv → ModuleScope → World → List DefineCall

/-- Those in a call of a hook; the compiler's own hooks define nothing. -/
def callDefines (fired : FireDefines) (phase : HookPhase) (hook : Value) (subject : HookSubject)
    (env : CompileEnv) (scope : ModuleScope) : World → List DefineCall :=
  match HookTarget.ofValue? phase hook with
  | none => fun _ => []
  | some target =>
    if target.module = compilerHookModule then fun _ => []
    else fired phase target subject env scope

/-- Those while a registered hook runs. -/
def hookDefines (fired : FireDefines) (phase : HookPhase) (subject : HookSubject)
    (scope : ModuleScope) (env : CompileEnv) (hook : Value) : World → List DefineCall :=
  (Run.record (.fired phase scope.module hook env)).after fun _ =>
    callDefines fired phase hook subject env scope

/-- Those while hooks are called in turn. -/
def turnDefines (g : Engine) (fired : FireDefines) (phase : HookPhase) (subject : HookSubject)
    (scope : ModuleScope) (next : CompileEnv → CompileEnv → CompileEnv) :
    CompileEnv → List Value → World → List DefineCall
  | _, [], _ => []
  | env, hook :: rest, w => hookDefines fired phase subject scope env hook w ++
    (g.runHook phase subject scope env hook).after
      (fun left => g.turnDefines fired phase subject scope next (next env left) rest) w

/-- A call that adds a definition, and those while its hooks run if it is new. -/
def defineDefines (g : Engine) (fired : FireDefines) (scope : ModuleScope) (n : NewDefinition)
    (w : World) : List DefineCall :=
  let c : DefineCall := ⟨g, scope, n, w⟩
  c :: match c.round? with
    | some (d, w₁) => g.turnDefines fired .onDefinition (.definition d) scope same c.env
      (w₁.registered scope.ticket .onDefinition) w₁
    | none => []

/-- The hooks of other modules keep the chronicle of the module that they are called for. -/
def FiresKeeping (g : Engine) (fired : FireDefines) : Prop :=
  ∀ phase target subject env scope,
    Keeps scope (g.fire phase target subject env scope) (fired phase target subject env scope)

variable {g : Engine} {fired : FireDefines} {scope : ModuleScope}

theorem graded_keeps (s : ModuleScope) : Graded (s.Chronicles fun _ => False) :=
  s.graded_chronicles _

/-- What a hook does is what the call of its target does once it is logged; what that throws is
wrapped with the place of the call. -/
theorem runHook_apply (g : Engine) (phase : HookPhase) (subject : HookSubject)
    (scope : ModuleScope) (env : CompileEnv) (hook : Value) (w : World) :
    g.runHook phase subject scope env hook w =
      match g.callHook phase hook subject env scope
        { w with log := w.log ++ [.fired phase scope.module hook env] } with
      | (.error (.failed f), w') =>
        let site := HookTarget.callSite phase hook ⟨env.file, env.line⟩
        (.error (.failed (.ofHook phase.key site (Frame.prune f.frames site) f site.location)), w')
      | called => called := by
  unfold runHook
  rw [bind_apply, Run.record, emit_apply]
  simp only
  rw [bind_apply]
  unfold attempt
  rcases g.callHook phase hook subject env scope _ with ⟨(f | _) | left, w'⟩ <;> rfl

section Hooks

variable (hfire : g.FiresKeeping fired)
include hfire

theorem keeps_callHook (phase : HookPhase) (hook : Value) (subject : HookSubject)
    (env : CompileEnv) : Keeps scope (g.callHook phase hook subject env scope)
      (callDefines fired phase hook subject env scope) := by
  have hR := graded_keeps scope
  unfold callHook callDefines
  cases HookTarget.ofValue? phase hook with
  | none => exact along_fail hR _
  | some target =>
    by_cases hbuiltin : target.module = compilerHookModule
    · simp only [hbuiltin, if_true]
      have hrun : Within (World.Quiet scope.ticket) (runBuiltin scope target.function subject) :=
        within_quiet_of_entryLaw (fun _ hP => related_runBuiltin hP _ _)
          (abides_runBuiltin target.function subject)
      exact (keeps_of_quiet hrun).bind hR fun _ _ => along_pure hR trivial
    · simp only [hbuiltin, if_false]
      exact hfire _ _ _ _ _

/-- **One hook.**  Its call is the only one about its topic, whatever definitions are made and
hooks are called while it runs. -/
theorem chronicle_runHook (phase : HookPhase) (subject : HookSubject) (env : CompileEnv)
    (hook : Value) {w : World} (hs : scope.StandsIn w)
    (hne : (g.runHook phase subject scope env hook w).1 ≠ .error .exhausted)
    (hown : scope.Owns (· = phase.topic env) w) :
    scope.Chronicle (· = phase.topic env) (hookDefines fired phase subject scope env hook w) w
        (g.runHook phase subject scope env hook w).2 ∧
      w.calls scope.module (phase.topic env) (g.runHook phase subject scope env hook w).2
        = [⟨hook, env⟩] := by
  let e : Event := .fired phase scope.module hook env
  let w₀ : World := { w with log := w.log ++ [e] }
  have hrun := runHook_apply g phase subject scope env hook w
  have hworld : (g.runHook phase subject scope env hook w).2
      = (g.callHook phase hook subject env scope w₀).2 := by
    rw [hrun]
    rcases g.callHook phase hook subject env scope _ with ⟨(f | _) | left, w'⟩ <;> rfl
  have hcall := (keeps_callHook hfire phase hook subject env).chronicle (w := w₀)
    ⟨hs.opened, hs.live⟩ fun h => hne (by
      rw [hrun, show g.callHook phase hook subject env scope w₀ = (.error .exhausted, _) from
        Prod.ext h rfl])
  rw [hworld]
  have hgrows : w.log <+: w₀.log := List.prefix_append _ _
  have htold (m : String) (topic : HookTopic) :
      w.calls m topic w₀ = [e].filterMap (Event.callOf? m topic) := World.calls_of_log rfl
  -- what is defined meanwhile is not what the hook is called about
  have hother (p : NameArity)
      (hp : p ∈ DefineCall.news (callDefines fired phase hook subject env scope w₀)) :
      phase.topic env ≠ .definition (some p) := by
    exact fun heq => hcall.not_mem_pairsOf hp (hown p heq.symm)
  refine ⟨⟨hcall.stands, hgrows.trans hcall.grows, ?_, hcall.pairs, ?_, ?_⟩, ?_⟩
  · intro m t hm ht
    obtain ⟨ht', hcalls⟩ := hcall.apart m t hm ht
    refine ⟨ht', fun topic => ?_⟩
    rw [World.calls_trans hgrows hcall.grows, hcalls, htold, List.append_nil]
    simp [e, Event.callOf?, hm.symm]
  · intro topic htopic hnews
    rw [World.calls_trans hgrows hcall.grows, hcall.others topic not_false hnews, htold,
      List.append_nil]
    simp [e, Event.callOf?, Ne.symm htopic]
  · intro c hc
    obtain ⟨hscope, hfires⟩ := hcall.fires c hc
    subst hscope
    refine ⟨rfl, hfires.widen hgrows hcall.grows List.prefix_rfl (fun hround => ?_) fun _ =>
      World.calls_self ..⟩
    obtain ⟨⟨d, w'⟩, hround⟩ := Option.isSome_iff_exists.mp hround
    have hne := hother _ (DefineCall.mem_news hc hround)
    rw [htold]
    simp [e, Event.callOf?, DefineCall.topic, hne]
  · rw [World.calls_trans hgrows hcall.grows, hcall.others _ not_false hother, htold]
    simp [e, Event.callOf?]

/-- **Hooks in turn.**  Their calls are all that are about their topic. -/
theorem InTurn.chronicle {phase : HookPhase} {subject : HookSubject}
    {next : CompileEnv → CompileEnv → CompileEnv} {env : CompileEnv} {hooks : List Value}
    {w w' : World} {calls : List HookCall} {last : Option CompileEnv}
    (h : g.InTurn phase subject scope next env hooks w calls last w')
    (hnext : ∀ env left, phase.topic (next env left) = phase.topic env) (hs : scope.StandsIn w)
    (hown : scope.Owns (· = phase.topic env) w) :
    scope.Chronicle (· = phase.topic env)
        (g.turnDefines fired phase subject scope next env hooks w) w w' ∧
      w.calls scope.module (phase.topic env) w' = calls := by
  induction h with
  | done env w =>
    exact ⟨(scope.graded_chronicles _).refl w hs hown, World.calls_self ..⟩
  | @returned env left hook hooks w w₁ w₂ calls last run rest ih =>
    have hhook := chronicle_runHook hfire phase subject env hook hs (by simp [run]) hown
    rw [run] at hhook
    obtain ⟨hfirst, hcall⟩ := hhook
    rw [hnext] at ih
    obtain ⟨hrest, hcalls⟩ := ih hfirst.stands (hown.later hfirst)
    refine ⟨?_, ?_⟩
    · rw [turnDefines, after, run]
      exact hfirst.append hrest hown
    · rw [World.calls_trans hfirst.grows hrest.grows, hcall, hcalls]
      rfl
  | @failed env hook w w₁ f hooks run =>
    have hhook := chronicle_runHook hfire phase subject env hook hs (by simp [run]) hown
    rw [run] at hhook
    rw [turnDefines, after, run, List.append_nil]
    exact hhook

/-! ## Definitions -/

omit hfire in
/-- What is accepted stands in the table, at its end if it is new; nothing is called for it yet. -/
theorem accept_frame {n : NewDefinition} {w w₁ : World} {d : Definition} {isNew : Bool}
    (h : n.accept scope w = .ok (d, isNew, w₁)) :
    w₁.log = w.log ∧ w.Calm w₁ ∧
      ((∃ p, w.OpenIn scope.ticket p) → ∃ p, w₁.OpenIn scope.ticket p) ∧
      w₁.pairsOf scope.ticket = w.pairsOf scope.ticket ++ (if isNew then [n.pair] else []) ∧
      (isNew = true → n.pair ∉ w.pairsOf scope.ticket) := by
  obtain ⟨e, ds, he, -, hds, rfl⟩ := NewDefinition.accept_eq_ok h
  obtain ⟨table, htable, rfl, hnew, hpair⟩ := DefinitionStore.define_eq_ok hds
  have hpair' : d.pair = n.pair := hpair
  have hbefore : w.pairsOf scope.ticket = table.definitions.keys := by
    rw [World.pairsOf_of_find? he, htable]
    rfl
  have hafter : World.pairsOf scope.ticket { w with
      registry := w.registry.update scope.ticket fun s =>
        { s with definitions := { e.definitions with table := some (table.put d) } } }
      = if n.pair ∈ table.definitions.keys then table.definitions.keys
        else table.definitions.keys ++ [n.pair] := by
    rw [World.pairsOf_update he, ← hpair']
    exact OrderedMap.keys_insert ..
  have hmem : isNew = true ↔ n.pair ∉ table.definitions.keys := by
    rw [hnew, OrderedMap.mem_keys_iff, Option.isNone_iff_eq_none]
    change table.definitions.get? n.pair = none ↔ _
    cases table.definitions.get? n.pair <;> simp
  refine ⟨rfl, ⟨rfl, Registry.isUnderWay_update_of_phase fun _ => rfl, .refl w⟩, ?_, ?_, ?_⟩
  · rintro ⟨p, e', he', hphase, hlive⟩
    obtain rfl : e = e' := Option.some.inj (he.symm.trans he')
    exact ⟨p, .update he hphase ⟨hlive.attributes, rfl⟩⟩
  · rw [hbefore, hafter]
    cases isNew with
    | true => rw [if_neg (hmem.mp rfl), if_pos rfl]
    | false =>
      rw [if_neg Bool.false_ne_true, List.append_nil, if_pos]
      by_contra hno
      cases hmem.mpr hno
  · intro hisNew
    rw [hbefore]
    exact hmem.mp hisNew

omit hfire in
/-- A definition that is refused or adds a clause calls nothing. -/
theorem quiet_of_known {c : DefineCall} (h : c.round? = none) :
    c.after.log = c.world.log ∧ c.world.Quiet c.scope.ticket c.after := by
  unfold DefineCall.round? at h
  unfold DefineCall.after
  rw [define_eq]
  cases haccept : c.new.accept c.scope c.world with
  | error f => exact ⟨rfl, (World.conduct_quiet _).refl _⟩
  | ok answer =>
    obtain ⟨d, isNew, w₁⟩ := answer
    cases isNew with
    | true =>
      rw [haccept] at h
      cases h
    | false =>
      obtain ⟨hlog, hcalm, hlive, hpairs, -⟩ := accept_frame haccept
      refine ⟨hlog, hcalm, ?_, hlive⟩
      exact hpairs.trans (List.append_nil _)

omit hfire in
theorem accept_of_round {c : DefineCall} {d : Definition} {w₁ : World}
    (h : c.round? = some (d, w₁)) :
    c.new.accept c.scope c.world = .ok (d, true, w₁) := by
  unfold DefineCall.round? at h
  split at h
  · cases h
    assumption
  · cases h

omit hfire in
/-- A new definition stands as it was made. -/
theorem definition_of_round {c : DefineCall} {d : Definition} {w₁ : World}
    (h : c.round? = some (d, w₁)) : d = c.new.definition c.scope := by
  obtain ⟨e, ds, -, -, hds, -⟩ := NewDefinition.accept_eq_ok (accept_of_round h)
  exact DefinitionStore.eq_of_define_new hds

omit hfire in
/-- A new definition calls the hooks that are registered when it stands in the table. -/
theorem inTurn_of_round {c : DefineCall} {d : Definition} {w₁ : World}
    (h : c.round? = some (d, w₁)) (hlive : ∃ p, w₁.OpenIn c.scope.ticket p)
    (hne : c.answer ≠ .error .exhausted) :
    ∃ calls last, c.engine.InTurn .onDefinition (.definition d) c.scope same c.env
        (w₁.registered c.scope.ticket .onDefinition) w₁ calls last c.after ∧
      (last = none ↔ ∃ f, c.answer = .error (.failed f)) := by
  obtain ⟨p, hopen⟩ := hlive
  obtain ⟨a, hattributes, hhooks⟩ := hopen.attributes (s := c.scope) .onDefinition
  have haccept := accept_of_round h
  have hrun : c.engine.define c.scope c.new c.world = (do
      c.engine.runEach .onDefinition (.definition d) c.scope c.env
        (w₁.registered c.scope.ticket .onDefinition)
      pure (d, true) : Run (Definition × Bool)) w₁ := by
    rw [define_eq, haccept]
    change (c.engine.runOnDefinition c.scope c.env d >>= fun _ => pure (d, true)) w₁ = _
    rw [bind_apply, bind_apply, runOnDefinition, bind_apply, hattributes, ← hhooks]
  unfold DefineCall.answer at hne ⊢
  unfold DefineCall.after
  rw [hrun, bind_apply] at hne ⊢
  have hturn := inTurn_runEach c.engine .onDefinition (.definition d) c.scope c.env
    (w₁.registered c.scope.ticket .onDefinition) w₁
  rcases hloop : c.engine.runEach .onDefinition (.definition d) c.scope c.env
    (w₁.registered c.scope.ticket .onDefinition) w₁ with ⟨(f | _) | u, w'⟩
  · rw [hloop] at hturn
    obtain ⟨calls, last, hturn, hlast⟩ := hturn nofun
    exact ⟨calls, last, hturn, hlast.trans (iff_of_true ⟨f, rfl⟩ ⟨f, rfl⟩)⟩
  · rw [hloop] at hne
    exact (hne rfl).elim
  · rw [hloop] at hturn
    obtain ⟨calls, last, hturn, hlast⟩ := hturn nofun
    exact ⟨calls, last, hturn, hlast.trans (iff_of_false nofun nofun)⟩

/-- **A definition** keeps the chronicle of its module: it has a round if it is new. -/
theorem keeps_define (n : NewDefinition) :
    Keeps scope (g.define scope n) (g.defineDefines fired scope n) := by
  refine fun w hne => ⟨fun hs _ => ?_, fun _ _ => trivial⟩
  let c : DefineCall := ⟨g, scope, n, w⟩
  change scope.Chronicle _ (c :: _) w c.after
  cases hround : c.round? with
  | none =>
    obtain ⟨hlog, hquiet⟩ := quiet_of_known hround
    have hbase := ModuleScope.chronicle_of_quiet (fun _ => False) hs hquiet
    have hnews : DefineCall.news [c] = [] := DefineCall.news_cons_of_known hround []
    refine ⟨hbase.stands, hbase.grows, hbase.apart, ?_, ?_, ?_⟩
    · rw [hbase.pairs, hnews]
      rfl
    · intro topic hother _
      exact hbase.others topic hother (fun _ hp => (List.not_mem_nil hp).elim)
    · refine List.forall_mem_singleton.mpr ⟨rfl, ⟨List.prefix_rfl, List.prefix_rfl, fun _ => hlog,
        fun d w₁ hnew => ?_⟩⟩
      rw [hround] at hnew
      cases hnew
  | some answer =>
    obtain ⟨d, w₁⟩ := answer
    obtain ⟨hlog, hcalm, hlive, hpairs, hnew⟩ := accept_frame (accept_of_round hround)
    have hs₁ : scope.StandsIn w₁ := ⟨by rw [hcalm.opened, hs.opened], hlive hs.live⟩
    obtain ⟨calls, last, hturn, hlast⟩ := inTurn_of_round hround hs₁.live hne
    have hown : scope.Owns (· = c.topic) w₁ := by
      rintro p ⟨⟩
      rw [hpairs]
      exact List.mem_append_right _ (List.mem_singleton_self _)
    obtain ⟨hround', hcalls⟩ := hturn.chronicle hfire (fun _ _ => rfl) hs₁ hown
    have htold (m : String) (topic : HookTopic) :
        w.calls m topic c.after = w₁.calls m topic c.after := (World.calls_congr hlog).symm
    have hgrows : w.log <+: w₁.log := by rw [hlog]
    refine ⟨hround'.stands, hgrows.trans hround'.grows, ?_, ?_, ?_, ?_⟩
    · intro m t hm ht
      obtain ⟨ht', hnone⟩ := hround'.apart m t hm (by rw [hcalm.opened, ht])
      exact ⟨ht', fun topic => (htold m topic).trans (hnone topic)⟩
    · rw [hround'.pairs, hpairs, DefineCall.news_cons_of_new hround, List.append_assoc]
      rfl
    · intro topic _ hnews
      rw [DefineCall.news_cons_of_new hround, List.forall_mem_cons] at hnews
      exact (htold ..).trans (hround'.others topic hnews.1 hnews.2)
    · refine List.forall_mem_cons.mpr ⟨⟨rfl, ⟨List.prefix_rfl, List.prefix_rfl, ?_, ?_⟩⟩, ?_⟩
      · intro hno
        rw [hround] at hno
        cases hno
      · intro d' w' hsome
        rw [hround] at hsome
        cases hsome
        exact ⟨hnew rfl, calls, last, hturn, (htold ..).trans hcalls, (htold ..).trans hcalls,
          hlast⟩
      · intro c' hc'
        obtain ⟨hscope, hfires⟩ := hround'.fires c' hc'
        refine ⟨hscope, hfires.widen hgrows hround'.grows List.prefix_rfl (fun _ => ?_) fun _ =>
          World.calls_self ..⟩
        rw [World.calls, hlog, List.drop_length]
        rfl

end Hooks
end Engine
end ModuleBuild
