import ModuleBuild.Proofs.Attribute.History
import ModuleBuild.Proofs.Compile.Handing
import ModuleBuild.Proofs.Compile.Rejection

/-! # Calls of hooks

The hooks of a module are called about something (`HookTopic`): a definition that is new, or the
compilation that is to come, or its artifact.  Every call is logged, so that the calls for a
module about a topic can be read from the log (`World.calls`).

A list of hooks is called in turn, one hook after the other up to the first that fails
(`Engine.InTurn`).  The list is that of the moment when its first hook is called, whatever the
hooks register (`inTurn_runEach`, `inTurn_runThrough`).  It has the hooks in the order of their
registration: a module that is opened has the compiler's own, and a hook that it registers is put
last (`Engine.registersHooks`).
-/
namespace ModuleBuild

open Run

/-- What hooks are called about. -/
inductive HookTopic where
  /-- A definition of a pair that is new. -/
  | definition (pair : Option NameArity)
  | before
  | after
  deriving DecidableEq

/-- What a hook is called about in a phase, by the context of the call. -/
def HookPhase.topic (env : CompileEnv) : HookPhase → HookTopic
  | onDefinition => .definition env.function
  | beforeCompile => .before
  | afterCompile => .after

/-- A call of a registered hook. -/
structure HookCall where
  hook : Value
  env : CompileEnv

/-- The call that an event tells of, if it is one for a module about a topic. -/
def Event.callOf? (m : String) (topic : HookTopic) : Event → Option HookCall
  | .fired phase module hook env =>
    if module = m ∧ phase.topic env = topic then some ⟨hook, env⟩ else none
  | _ => none

namespace World

/-- The calls of hooks for a module about a topic, from one world to a later one. -/
def calls (m : String) (topic : HookTopic) (w w' : World) : List HookCall :=
  (w'.log.drop w.log.length).filterMap (Event.callOf? m topic)

/-- The hooks that a module has registered for a phase, in order. -/
def registered (t : Ticket) (phase : HookPhase) (w : World) : List Value :=
  (((w.registry.find? t).bind fun e => e.attributes.table).map fun a =>
    a.readAll phase.key).getD []

/-- The pairs that a module has defined, in order. -/
def pairsOf (t : Ticket) (w : World) : List NameArity :=
  (((w.registry.find? t).bind fun e => e.definitions.table).map fun d =>
    d.definitions.keys).getD []

section Lemmas

variable {m : String} {topic : HookTopic} {w w₁ w₂ : World} {t : Ticket}

theorem calls_of_log {es : List Event} (h : w₁.log = w.log ++ es) :
    w.calls m topic w₁ = es.filterMap (Event.callOf? m topic) := by
  rw [calls, h, List.drop_left]

theorem calls_self (m : String) (topic : HookTopic) (w : World) : w.calls m topic w = [] :=
  (calls_of_log (List.append_nil _).symm).trans List.filterMap_nil

theorem calls_trans (h : w.log <+: w₁.log) (h' : w₁.log <+: w₂.log) :
    w.calls m topic w₂ = w.calls m topic w₁ ++ w₁.calls m topic w₂ := by
  obtain ⟨es, hes⟩ := h
  obtain ⟨es', hes'⟩ := h'
  have hlog : w₂.log = w.log ++ (es ++ es') := by rw [← hes', ← hes, List.append_assoc]
  rw [calls_of_log hlog, calls_of_log hes.symm, calls_of_log hes'.symm, List.filterMap_append]

/-- What is called for a module can be told from the logs. -/
theorem calls_congr (h : w₁.log = w.log) : w₁.calls m topic w₂ = w.calls m topic w₂ := by
  rw [calls, calls, h]

theorem nodup_pairsOf (t : Ticket) (w : World) : (w.pairsOf t).Nodup := by
  unfold pairsOf
  cases (w.registry.find? t).bind fun e => e.definitions.table with
  | none => exact List.nodup_nil
  | some d => exact d.definitions.nodup

/-- An open module has its hooks to be called. -/
theorem OpenIn.attributes {p : Phase} {s : ModuleScope} (h : w.OpenIn s.ticket p)
    (phase : HookPhase) :
    ∃ a, Run.attributes s w = (.ok a, w) ∧ a.readAll phase.key = w.registered s.ticket phase := by
  obtain ⟨e, he, -, hlive⟩ := h
  obtain ⟨a, ha⟩ := Option.isSome_iff_exists.mp hlive.attributes
  refine ⟨a, attributes_apply he ha, ?_⟩
  rw [registered, he, Option.bind_some, ha]
  rfl

end Lemmas
end World

/-! ## Registering hooks -/

/-- A module has registered these hooks for a phase, one after the other. -/
def World.Registers (t : Ticket) (phase : HookPhase) (hooks : List Value) (w : World) : Prop :=
  ∃ e a persist, w.registry.find? t = some e ∧ e.attributes.table = some a ∧
    a.Represents phase.key ⟨⟨true, persist⟩, hooks⟩

/-- The hooks that every module starts with: the compiler's own for documentation. -/
def HookPhase.builtins (withDocs : Bool) : HookPhase → List Value
  | onDefinition => [ModuleEntry.docHook withDocs]
  | _ => []

/-- Hooks are registered one after the other. -/
structure Engine.RegistersHooks (g : Engine) : Prop where
  /-- A module that is opened has the hooks that every module starts with. -/
  opening : ∀ (name : String) (env : CompileEnv) (w w₁ : World) (o : Opening),
    g.openModule name env w = (.ok o, w₁) →
      ∀ phase, w₁.Registers o.scope.ticket phase (phase.builtins g.host.options.docs)
  /-- A hook that is registered is put last. -/
  last : ∀ (scope : ModuleScope) (phase : HookPhase) (hook : Value) (hooks : List Value)
    (w : World), w.Registers scope.ticket phase hooks → ∃ w₁,
      g.putAttribute scope phase.key hook w = (.ok (), w₁) ∧
        w₁.Registers scope.ticket phase (hooks ++ [hook])
  /-- The hooks are in the order of their registration. -/
  ordered : ∀ (t : Ticket) (phase : HookPhase) (hooks : List Value) (w : World),
    w.Registers t phase hooks → w.registered t phase = hooks

/-- Writes to the keys of hooks accumulate in a new module. -/
theorem HookPhase.represents_initial (phase : HookPhase) (withDocs : Bool) :
    (ModuleEntry.initialAttributes withDocs).Represents phase.key
      ⟨⟨true, PolicyTable.initial.persists phase.key⟩, phase.builtins withDocs⟩ := by
  have hnew (p : HookPhase) : ((AttributeTable.ofPolicies .initial).setCell "moduledoc"
      (some (.single .null)) (by decide)).Represents p.key
        ⟨⟨true, PolicyTable.initial.persists p.key⟩, []⟩ := by
    have haccumulates : PolicyTable.initial.accumulates p.key = true := by
      cases p <;> decide
    have hpolicies := AttributeStore.represents_new p.key
    rw [AttributeRecord.initial, haccumulates] at hpolicies
    exact AttributeTable.represents_setCell_of_ne hpolicies (by cases p <;> decide) (by decide)
  unfold ModuleEntry.initialAttributes
  cases phase with
  | onDefinition =>
    exact AttributeTable.represents_setCell (by decide) (hnew .onDefinition).accumulates
      (hnew .onDefinition).persists .accumulated
  | beforeCompile =>
    exact AttributeTable.represents_setCell_of_ne (hnew .beforeCompile) (by decide) (by decide)
  | afterCompile =>
    exact AttributeTable.represents_setCell_of_ne (hnew .afterCompile) (by decide) (by decide)

/-- The keys of hooks declare nothing that could be documented. -/
theorem Engine.putAttribute_phase (g : Engine) (scope : ModuleScope) (phase : HookPhase)
    (hook : Value) : g.putAttribute scope phase.key hook
      = Run.changeAttributes scope (·.write phase.key hook) >>= pure := by
  have htype : TypeKind.ofKey? phase.key = none := by cases phase <;> decide
  have hcallback : CallbackKind.ofKey? phase.key = none := by cases phase <;> decide
  unfold putAttribute
  rw [htype, hcallback]

namespace World.Registers

variable {phase : HookPhase} {hooks : List Value} {w : World}

theorem registered_eq {t : Ticket} (h : w.Registers t phase hooks) :
    w.registered t phase = hooks := by
  obtain ⟨e, a, persist, he, ha, hrep⟩ := h
  rw [registered, he, Option.bind_some, ha]
  exact hrep.readAll

theorem put (g : Engine) {scope : ModuleScope} (h : w.Registers scope.ticket phase hooks)
    (hook : Value) : ∃ w₁, g.putAttribute scope phase.key hook w = (.ok (), w₁) ∧
      w₁.Registers scope.ticket phase (hooks ++ [hook]) := by
  obtain ⟨e, a, persist, he, ha, hrep⟩ := h
  have hkey : ¬AttributeTable.isReserved phase.key = true := by cases phase <;> decide
  obtain ⟨a', hwrite, hrep'⟩ := AttributeTable.represents_write hrep hkey hook
  have hchange : changeAttributes scope (·.write phase.key hook) w = _ :=
    changeAttributes_apply he ha fun t => t.write phase.key hook
  rw [Engine.putAttribute_phase, bind_apply, hchange, hwrite]
  refine ⟨_, rfl, e.change fun s => { s with attributes := { e.attributes with table := some a' } },
    a', persist, ?_, rfl, hrep'⟩
  rw [Registry.find?_update, if_pos rfl, he]
  rfl

end World.Registers

namespace Engine

theorem registersHooks (g : Engine) : g.RegistersHooks where
  opening name env w w₁ o hopen phase := by
    rcases openModule_cases g name env w with ⟨f, ds, hrefused, -⟩ | ⟨-, hopened⟩
    · rw [hrefused] at hopen
      cases hopen
    · rw [hopened] at hopen
      cases hopen
      exact ⟨_, _, _, g.find?_opening name env w, rfl, phase.represents_initial _⟩
  last _ _ hook _ _ h := h.put g hook
  ordered _ _ _ _ h := h.registered_eq

/-- Hooks are called in turn, the first one in a context and each other one in the context that
`next` makes of that of the call before it and of the one that this call left.  The calls end
with the first one that fails; if none does, the last context is left. -/
inductive InTurn (g : Engine) (phase : HookPhase) (subject : HookSubject) (scope : ModuleScope)
    (next : CompileEnv → CompileEnv → CompileEnv) :
    CompileEnv → List Value → World → List HookCall → Option CompileEnv → World → Prop where
  | done (env : CompileEnv) (w : World) : InTurn g phase subject scope next env [] w [] (some env) w
  | returned {env left : CompileEnv} {hook : Value} {hooks : List Value} {w w₁ w₂ : World}
      {calls : List HookCall} {last : Option CompileEnv}
      (run : g.runHook phase subject scope env hook w = (.ok left, w₁))
      (rest : InTurn g phase subject scope next (next env left) hooks w₁ calls last w₂) :
      InTurn g phase subject scope next env (hook :: hooks) w (⟨hook, env⟩ :: calls) last w₂
  | failed {env : CompileEnv} {hook : Value} {w w₁ : World} {f : Failure} (hooks : List Value)
      (run : g.runHook phase subject scope env hook w = (.error (.failed f), w₁)) :
      InTurn g phase subject scope next env (hook :: hooks) w [⟨hook, env⟩] none w₁

/-- Each hook is called in the same context. -/
def same (env _left : CompileEnv) : CompileEnv := env

/-- Each hook is called in the context that the one before it left. -/
def threaded (_env left : CompileEnv) : CompileEnv := left

section Turns

variable {g : Engine} {phase : HookPhase} {subject : HookSubject} {scope : ModuleScope}
  {next : CompileEnv → CompileEnv → CompileEnv} {env : CompileEnv} {hooks : List Value}
  {w w' : World} {calls : List HookCall} {last : Option CompileEnv}

/-- The hooks are called in their order, each at most once. -/
theorem InTurn.hooks_prefix (h : g.InTurn phase subject scope next env hooks w calls last w') :
    calls.map HookCall.hook <+: hooks := by
  induction h with
  | done => exact List.prefix_rfl
  | returned run rest ih => exact List.cons_prefix_cons.mpr ⟨rfl, ih⟩
  | failed hooks run => exact List.cons_prefix_cons.mpr ⟨rfl, List.nil_prefix⟩

/-- If none fails, all of them are called. -/
theorem InTurn.hooks_eq {env' : CompileEnv}
    (h : g.InTurn phase subject scope next env hooks w calls (some env') w') :
    calls.map HookCall.hook = hooks := by
  generalize hlast : some env' = last at h
  induction h with
  | done => rfl
  | returned run rest ih => exact congrArg (_ :: ·) (ih hlast)
  | failed hooks run => cases hlast

theorem InTurn.env_of_mem_same
    (h : g.InTurn phase subject scope same env hooks w calls last w') :
    ∀ c ∈ calls, c.env = env := by
  induction h with
  | done => exact nofun
  | returned run rest ih => exact List.forall_mem_cons.mpr ⟨rfl, ih⟩
  | failed hooks run => exact List.forall_mem_singleton.mpr rfl

/-- **Hooks that are called in one context** are called in their order, all of them if none
fails. -/
theorem InTurn.calls_same {env' : CompileEnv}
    (h : g.InTurn phase subject scope same env hooks w calls (some env') w') :
    calls = hooks.map fun hook => ⟨hook, env⟩ := by
  rw [← h.hooks_eq, List.map_map]
  refine ((List.map_congr_left fun c hc => ?_).trans (List.map_id calls)).symm
  rw [Function.comp_apply, ← h.env_of_mem_same c hc]
  rfl

/-- What the loop over hooks in one context does. -/
theorem inTurn_runEach (g : Engine) (phase : HookPhase) (subject : HookSubject)
    (scope : ModuleScope) (env : CompileEnv) (hooks : List Value) (w : World)
    (hne : (g.runEach phase subject scope env hooks w).1 ≠ .error .exhausted) :
    ∃ calls last, g.InTurn phase subject scope same env hooks w calls last
        (g.runEach phase subject scope env hooks w).2 ∧
      (last = none ↔ ∃ f, (g.runEach phase subject scope env hooks w).1 = .error (.failed f)) := by
  induction hooks generalizing w with
  | nil => exact ⟨[], some env, .done env w, iff_of_false nofun nofun⟩
  | cons hook rest ih =>
    unfold runEach at hne ⊢
    rw [bind_apply] at hne ⊢
    rcases hrun : g.runHook phase subject scope env hook w with ⟨(f | _) | left, w₁⟩
    · exact ⟨_, none, .failed rest hrun, iff_of_true rfl ⟨f, rfl⟩⟩
    · rw [hrun] at hne
      exact (hne rfl).elim
    · simp only [hrun] at hne ⊢
      obtain ⟨calls, last, hturn, hlast⟩ := ih w₁ hne
      exact ⟨_, last, .returned hrun hturn, hlast⟩

/-- What the loop over hooks with a context handed on does. -/
theorem inTurn_runThrough (g : Engine) (phase : HookPhase) (subject : HookSubject)
    (scope : ModuleScope) (env : CompileEnv) (hooks : List Value) (w : World)
    (hne : (g.runThrough phase subject scope env hooks w).1 ≠ .error .exhausted) :
    ∃ calls last, g.InTurn phase subject scope threaded env hooks w calls last
        (g.runThrough phase subject scope env hooks w).2 ∧
      ∀ env', last = some env' ↔ (g.runThrough phase subject scope env hooks w).1 = .ok env' := by
  induction hooks generalizing env w with
  | nil =>
    refine ⟨[], some env, .done env w, fun env' => ⟨?_, ?_⟩⟩
    · rintro ⟨⟩
      rfl
    · intro h
      cases h
      rfl
  | cons hook rest ih =>
    unfold runThrough at hne ⊢
    rw [bind_apply] at hne ⊢
    rcases hrun : g.runHook phase subject scope env hook w with ⟨(f | _) | left, w₁⟩
    · exact ⟨_, none, .failed rest hrun, fun env' => iff_of_false nofun nofun⟩
    · rw [hrun] at hne
      exact (hne rfl).elim
    · simp only [hrun] at hne ⊢
      obtain ⟨calls, last, hturn, hlast⟩ := ih left w₁ hne
      exact ⟨_, last, .returned hrun hturn, hlast⟩

end Turns
end Engine

/-! ## Runs that call no hooks -/

/-- No hook is called. -/
structure World.Silent (w w' : World) : Prop where
  grows : w.log <+: w'.log
  calls : ∀ m topic, w.calls m topic w' = []

namespace World

variable {w w' : World}

theorem conduct_silent : Conduct Silent where
  refl w := ⟨List.prefix_rfl, fun m topic => calls_self m topic w⟩
  trans h h' := ⟨h.grows.trans h'.grows, fun m topic => by
    rw [calls_trans h.grows h'.grows, h.calls, h'.calls, List.nil_append]⟩

theorem silent_of_log {es : List Event} (h : w'.log = w.log ++ es)
    (hes : ∀ e ∈ es, ∀ m topic, e.callOf? m topic = none) : w.Silent w' where
  grows := ⟨es, h.symm⟩
  calls m topic := by
    rw [calls_of_log h, List.filterMap_eq_nil_iff]
    exact fun e he => hes e he m topic

theorem silent_of_warnings {ds : List Diagnostic} {m : String}
    (h : w'.log = w.log ++ ds.map (.warned m)) : w.Silent w' :=
  silent_of_log h fun e he _ _ => by
    obtain ⟨d, -, rfl⟩ := List.mem_map.mp he
    rfl

theorem silent_notify (host : Host) (callback m : String) (l : Location) {e : Event}
    (he : ∀ n topic, e.callOf? n topic = none) (w : World) :
    w.Silent (Run.notify host callback m l e w).2 := by
  have hevent : w.Silent { w with log := w.log ++ [e] } :=
    silent_of_log rfl (List.forall_mem_singleton.mpr he)
  rw [world_notify]
  exact conduct_silent.trans hevent (silent_of_warnings (List.append_cons ..))

end World

/-- No hook is called, no module is opened or closed, and the module under a ticket keeps its
definitions and its stores. -/
structure World.Quiet (t : Ticket) (w w' : World) : Prop where
  calm : World.Calm w w'
  pairs : w'.pairsOf t = w.pairsOf t
  live : (∃ p, w.OpenIn t p) → ∃ p, w'.OpenIn t p

namespace World

variable {w w' : World} {t : Ticket}

theorem conduct_quiet (t : Ticket) : Conduct (Quiet t) where
  refl w := ⟨conduct_calm.refl w, rfl, fun h => h⟩
  trans h h' := ⟨conduct_calm.trans h.calm h'.calm, h'.pairs.trans h.pairs,
    fun hlive => h'.live (h.live hlive)⟩

theorem quiet_of_registry (h : w.Calm w') (hr : w'.registry = w.registry) : w.Quiet t w' where
  calm := h
  pairs := by rw [pairsOf, pairsOf, hr]
  live hlive := by
    obtain ⟨p, e, he, hopen⟩ := hlive
    exact ⟨p, e, by rw [hr, he], hopen⟩

theorem Calm.silent (h : w.Calm w') : w.Silent w' := by
  obtain ⟨es, hlog, hes⟩ := h.tells
  refine silent_of_log hlog fun e he m topic => ?_
  -- a call of a hook would be a handing
  have htold : e.handed? = none := List.filterMap_eq_nil_iff.mp hes e he
  cases e with
  | fired => cases htold
  | _ => rfl

theorem pairsOf_of_find? {e : ModuleEntry} (he : w.registry.find? t = some e) :
    w.pairsOf t = (e.definitions.table.map fun d => d.definitions.keys).getD [] := by
  rw [pairsOf, he]
  rfl

theorem pairsOf_update {e : ModuleEntry} (he : w.registry.find? t = some e)
    (f : ModuleState → ModuleState) :
    pairsOf t { w with registry := w.registry.update t f }
      = ((f e.toModuleState).definitions.table.map fun d => d.definitions.keys).getD [] := by
  refine pairsOf_of_find? (e := e.change f) ?_
  rw [Registry.find?_update, if_pos rfl, he]
  rfl

end World

namespace Run

variable {α : Type} {scope : ModuleScope} {t : Ticket}

theorem congruence_quiet (t : Ticket) : (within (World.Quiet t)).Congruence :=
  congruence_within (World.conduct_quiet t)

theorem within_quiet_emit {e : Event} (he : e.handed? = none) (answer : List Event → α) :
    Within (World.Quiet t) (emit e answer) := fun _ _ =>
  World.quiet_of_registry (World.calm_of_log he) rfl

theorem within_quiet_warn (host : Host) (m : String) (d : Diagnostic) :
    Within (World.Quiet t) (warn host m d) := by
  intro w hne
  refine World.quiet_of_registry (within_calm_warn host m d w hne) ?_
  rw [warn_apply]

theorem within_quiet_notify (host : Host) (callback m : String) (l : Location) {e : Event}
    (he : e.handed? = none) : Within (World.Quiet t) (notify host callback m l e) := by
  intro w hne
  refine World.quiet_of_registry (within_calm_notify host callback m l he w hne) ?_
  rw [world_notify]

/-- A module keeps its pairs. -/
def KeepsPairs (t : Ticket) (w w' : World) : Prop := w'.pairsOf t = w.pairsOf t

theorem congruence_keepsPairs (t : Ticket) : (within (KeepsPairs t)).Congruence :=
  congruence_within ⟨fun _ => rfl, fun h h' => h'.trans h⟩

theorem within_keepsPairs_updateEntry {f : ModuleState → ModuleState}
    (hf : ∀ s, (f s).definitions = s.definitions) :
    Within (KeepsPairs scope.ticket) (updateEntry scope f) := by
  intro w _
  change World.pairsOf _ { w with registry := w.registry.update scope.ticket f } = _
  cases he : w.registry.find? scope.ticket with
  | none => rw [Registry.update_of_find?_eq_none he]
  | some e => rw [World.pairsOf_update he, hf, World.pairsOf_of_find? he]

theorem entryLaw_keepsPairs (scope : ModuleScope) :
    EntryLaw scope (within (KeepsPairs scope.ticket)) where
  toCongruence := congruence_keepsPairs _
  changeAttributes _ :=
    (congruence_keepsPairs _).bind ((congruence_keepsPairs _).entry scope) fun _ =>
      (congruence_keepsPairs _).bind ((congruence_keepsPairs _).ofCondition _) fun _ =>
        within_keepsPairs_updateEntry fun _ => rfl
  changeDocs _ := within_keepsPairs_updateEntry fun _ => rfl
  recordLocal p := by
    intro w _
    unfold Engine.recordLocal
    rw [bind_apply, entry_apply]
    cases he : w.registry.find? scope.ticket with
    | none => exact rfl
    | some e =>
      simp only [bind_apply]
      cases hds : e.definitions.recordLocal p with
      | error c => exact rfl
      | ok ds =>
        obtain ⟨d, hd, rfl⟩ := DefinitionStore.recordLocal_eq_ok hds
        change World.pairsOf _ { w with registry := w.registry.update scope.ticket _ } = _
        rw [World.pairsOf_update he, World.pairsOf_of_find? he, hd]
        simp only [Option.map_some, DefinitionTable.definitions_recordLocal]

/-- Code that changes the entry of its module otherwise than by definitions is quiet. -/
theorem within_quiet_of_entryLaw {r : Run α} (hr : ∀ P : RunRelation, EntryLaw scope P → P r r)
    (habides : Abides (Failure.Points fun _ => True) scope.ticket r) :
    Within (World.Quiet scope.ticket) r := by
  intro w hne
  refine ⟨hr _ (entryLaw_calm scope) w hne, hr _ (entryLaw_keepsPairs scope) w hne, ?_⟩
  rintro ⟨p, hw⟩
  have hleads := habides p w hw
  rcases hrun : r w with ⟨(f | _) | a, w'⟩
  · rw [hrun] at hleads
    exact ⟨p, hleads.2⟩
  · rw [hrun] at hne
    exact (hne rfl).elim
  · rw [hrun] at hleads
    exact ⟨p, hleads⟩

end Run

namespace Engine

variable {g : Engine} {scope : ModuleScope} {o : Opening}

theorem within_quiet_recordLocal (p : NameArity) :
    Within (World.Quiet scope.ticket) (recordLocal scope p) :=
  within_quiet_of_entryLaw (fun _ hP => hP.recordLocal p) (abides_recordLocal p)

theorem within_quiet_advance {target : Phase} (htarget : target ≠ .closed) :
    Within (World.Quiet o.scope.ticket) (g.advance o target) := by
  intro w hne
  have hcalm := within_calm_advance htarget w hne
  unfold advance at hne hcalm ⊢
  rw [bind_apply, entry_apply] at hne hcalm ⊢
  cases he : w.registry.find? o.scope.ticket with
  | none => exact (World.conduct_quiet _).refl w
  | some e =>
    simp only [he, bind_apply] at hne hcalm ⊢
    cases hmove : e.phase.advance o.scope.module target with
    | error c => exact (World.conduct_quiet _).refl w
    | ok m =>
      obtain ⟨d, hw⟩ := world_move g o m w
      rw [hmove] at hcalm
      change World.Calm w (g.move o m w).2 at hcalm
      change World.Quiet _ w (g.move o m w).2
      refine ⟨hcalm, ?_, fun ⟨p, e', he', hphase, hlive⟩ => ?_⟩
      · rw [hw]
        exact (World.pairsOf_update he _).trans (World.pairsOf_of_find? he).symm
      · obtain rfl : e = e' := Option.some.inj (he.symm.trans he')
        rw [hw]
        exact ⟨m.2, World.OpenIn.update he rfl ⟨hlive.attributes, hlive.definitions⟩⟩

theorem within_quiet_assemble : Within (World.Quiet o.scope.ticket) (g.assemble o) :=
  related_assemble (congruence_quiet _) within_quiet_recordLocal

theorem within_quiet_build (m : Assembly) : Within (World.Quiet o.scope.ticket) (g.build o m) :=
  related_build (congruence_quiet _) m

theorem handoverLaw_quiet (g : Engine) (o : Opening) (t : Ticket) :
    HandoverLaw g o (within (World.Quiet t)) where
  toCongruence := congruence_quiet t
  recordArtifact _ := fun w _ => World.quiet_of_registry ⟨rfl, fun _ => rfl, .refl w⟩ rfl
  register _ := fun w _ => World.quiet_of_registry ⟨rfl, fun _ => rfl, .refl w⟩ rfl
  listen _ _ listener := within_quiet_emit rfl listener
  load _ loader := within_quiet_emit rfl loader
  announce _ _ := within_quiet_notify _ _ _ _ rfl

end Engine
end ModuleBuild
