import ModuleBuild.Proofs.Compile.Delivery
import ModuleBuild.Proofs.Compile.Trace
import ModuleBuild.Proofs.Form.DefinitionWindow
import ModuleBuild.Proofs.Form.Termination

/-! # The ledger of compilations

The artifacts that reach the session and the modules that are loaded are those of the
compilations that are fulfilled, nested ones included, in the order in which they end.  A
`Ledger` between two worlds lists these.  Code keeps one (`World.KeepsLedger`): the compilation
of a module appends itself to what its body and its hooks have left, if it is fulfilled, and
nothing if it fails.

So does a sequence of compilations, whatever becomes of each (`ledger_of_compileEach`).
-/
namespace ModuleBuild

open Run

/-! ## Loading in turn -/

/-- **The module loaded last is the one that a name is loaded with.** -/
theorem CodeSession.get?_foldl_register (s : CodeSession) (ms : List LoadedModule)
    (module : String) :
    (ms.foldl register s).get? module
      = ((ms.filter fun m => m.module = module).getLast?).or (s.get? module) := by
  induction ms using List.reverseRecOn with
  | nil => rfl
  | append_singleton rest m ih =>
    rw [List.foldl_append, List.filter_append]
    change OrderedMap.get? (OrderedMap.insert _ m.module m) module = _
    rw [OrderedMap.get?_insert]
    by_cases h : m.module = module
    · simp [h]
    · rw [if_neg h, List.filter_singleton, decide_eq_false h, cond_false, List.append_nil]
      exact ih

/-- The second world comes after the first: more has happened. -/
def World.Precedes (w w' : World) : Prop := w.log <+: w'.log ∧ w.log.length < w'.log.length

/-- A compilation that was fulfilled: how deep the hooks could call each other, what was
compiled, and between which worlds. -/
structure Fulfilment where
  depth : Nat
  task : FormLibrary.Task
  before : World
  compiled : CompiledModule
  after : World

namespace Fulfilment

/-- The fulfilment is that of a compilation. -/
def IsRun (lib : FormLibrary) (host : Host) (f : Fulfilment) : Prop :=
  (lib.engine host f.depth).compile f.task.name f.task.env
    (lib.evaluation (lib.engine host f.depth) f.task.body) f.before = (.ok f.compiled, f.after)

/-- What the session has of it. -/
def binary (f : Fulfilment) : String × Artifact := (f.task.name, f.compiled.artifact)

/-- What is loaded of it. -/
def loaded (f : Fulfilment) : LoadedModule := ⟨f.task.name, f.compiled.artifact, .memory⟩

/-- It warns first that its name was loaded, once, if it was when the module was opened and
that is to be reported, and of that never again. -/
def ReportsRedefinition (host : Host) (f : Fulfilment) : Prop :=
  ∃ first others, f.compiled.warnings = first ++ others ∧
    first.map Diagnostic.code
      = (if host.options.ignoreModuleConflict = false ∧ (f.before.code.get? f.task.name).isSome
          then [.moduleRedefined] else []) ∧
    (∀ d ∈ others, d.code ≠ .moduleRedefined) ∧
    f.before.log ++ first.map (.warned f.task.name) <+: f.after.log

end Fulfilment

/-- Between the two worlds these compilations were fulfilled, in the order in which they
ended, and theirs are the artifacts that were produced and loaded. -/
structure Ledger (lib : FormLibrary) (host : Host) (w w' : World) (fs : List Fulfilment) :
    Prop where
  runs : ∀ f ∈ fs, f.IsRun lib host
  inside : ∀ f ∈ fs, w.log <+: f.before.log ∧ f.before.Precedes f.after ∧ f.after.log <+: w'.log
  ordered : fs.Pairwise fun f f' => f.after.Precedes f'.after
  session : w'.session
    = { w.session with binaries := w.session.binaries ++ fs.map Fulfilment.binary }
  code : w'.code = (fs.map Fulfilment.loaded).foldl CodeSession.register w.code
  closings : ∃ es, w'.log = w.log ++ es ∧ fulfilledIn es = fs.map fun f => f.task.name

namespace Ledger

variable {lib : FormLibrary} {host : Host} {w w₁ w₂ w' : World} {fs fs' : List Fulfilment}

theorem log_grows (h : Ledger lib host w w' fs) : w.log <+: w'.log := by
  obtain ⟨es, hlog, -⟩ := h.closings
  exact hlog ▸ List.prefix_append _ _

/-- What fulfils nothing, and neither produces nor loads. -/
theorem of_quiet {es : List Event} (hsession : w'.session = w.session) (hcode : w'.code = w.code)
    (hlog : w'.log = w.log ++ es) (hes : fulfilledIn es = []) : Ledger lib host w w' [] where
  runs _ hf := (List.not_mem_nil hf).elim
  inside _ hf := (List.not_mem_nil hf).elim
  ordered := .nil
  session := by rw [hsession, List.map_nil, List.append_nil]
  code := hcode
  closings := ⟨es, hlog, hes⟩

theorem refl (w : World) : Ledger lib host w w [] :=
  of_quiet rfl rfl (List.append_nil _).symm rfl

theorem log (w : World) {e : Event} (he : e.isClosing = false) :
    Ledger lib host w { w with log := w.log ++ [e] } [] :=
  of_quiet rfl rfl rfl (fulfilledIn_eq_nil fun _ h => List.mem_singleton.mp h ▸ he)

/-- **Ledgers are continued.** -/
theorem trans (h : Ledger lib host w w₁ fs) (h' : Ledger lib host w₁ w₂ fs') :
    Ledger lib host w w₂ (fs ++ fs') where
  runs f hf := (List.mem_append.mp hf).elim (h.runs f) (h'.runs f)
  inside f hf := by
    rcases List.mem_append.mp hf with hf | hf
    · obtain ⟨hbefore, hruns, hafter⟩ := h.inside f hf
      exact ⟨hbefore, hruns, hafter.trans h'.log_grows⟩
    · obtain ⟨hbefore, hruns, hafter⟩ := h'.inside f hf
      exact ⟨h.log_grows.trans hbefore, hruns, hafter⟩
  ordered := by
    refine List.pairwise_append.mpr ⟨h.ordered, h'.ordered, fun f hf f' hf' => ?_⟩
    -- the first ended before the second began
    obtain ⟨-, -, hended⟩ := h.inside f hf
    obtain ⟨hbegan, ⟨hruns, hlonger⟩, -⟩ := h'.inside f' hf'
    have hearlier : f.after.log <+: f'.before.log := hended.trans hbegan
    exact ⟨hearlier.trans hruns, Nat.lt_of_le_of_lt hearlier.length_le hlonger⟩
  session := by rw [h'.session, h.session, List.map_append, List.append_assoc]
  code := by rw [h'.code, h.code, List.map_append, List.foldl_append]
  closings := by
    obtain ⟨es, hlog, hes⟩ := h.closings
    obtain ⟨es', hlog', hes'⟩ := h'.closings
    refine ⟨es ++ es', ?_, ?_⟩
    · rw [hlog', hlog, List.append_assoc]
    · rw [fulfilledIn_append, hes, hes', List.map_append]

/-- **A compilation that is fulfilled comes after those in it.** -/
theorem conclude {f : Fulfilment} {es : List Event} (h : Ledger lib host f.before w₁ fs)
    (hrun : f.IsRun lib host)
    (hsession : f.after.session = w₁.session.produce f.task.name f.compiled.artifact)
    (hcode : f.after.code = w₁.code.register f.loaded) (hlog : f.after.log = w₁.log ++ es)
    (hes : fulfilledIn es = [f.task.name]) : Ledger lib host f.before f.after (fs ++ [f]) := by
  have hlonger : w₁.log.length < f.after.log.length := by
    have hne : es ≠ [] := fun hnil => by
      rw [hnil] at hes
      cases hes
    rw [hlog, List.length_append]
    exact Nat.lt_add_of_pos_right (List.length_pos_iff.mpr hne)
  have hlast : w₁.log <+: f.after.log := hlog ▸ List.prefix_append _ _
  refine ⟨fun f' hf' => ?_, fun f' hf' => ?_, ?_, ?_, ?_, ?_⟩
  · rcases List.mem_append.mp hf' with hf' | hf'
    · exact h.runs f' hf'
    · exact List.mem_singleton.mp hf' ▸ hrun
  · rcases List.mem_append.mp hf' with hf' | hf'
    · obtain ⟨hbefore, hruns, hafter⟩ := h.inside f' hf'
      exact ⟨hbefore, hruns, hafter.trans hlast⟩
    · obtain rfl := List.mem_singleton.mp hf'
      exact ⟨List.prefix_rfl, ⟨h.log_grows.trans hlast,
        Nat.lt_of_le_of_lt h.log_grows.length_le hlonger⟩, List.prefix_rfl⟩
  · refine List.pairwise_append.mpr ⟨h.ordered, List.pairwise_singleton _ _, fun f' hf' g hg => ?_⟩
    obtain rfl := List.mem_singleton.mp hg
    obtain ⟨-, -, hended⟩ := h.inside f' hf'
    exact ⟨hended.trans hlast, Nat.lt_of_le_of_lt hended.length_le hlonger⟩
  · rw [hsession, h.session, CompilationSession.produce, List.map_append, ← List.append_assoc]
    rfl
  · rw [hcode, h.code, List.map_append, List.foldl_append]
    rfl
  · obtain ⟨es', hlog', hes'⟩ := h.closings
    refine ⟨es' ++ es, ?_, ?_⟩
    · rw [hlog, hlog', List.append_assoc]
    · rw [fulfilledIn_append, hes', hes, List.map_append]
      rfl

/-- **A name is loaded with what its last fulfilled compilation made**, and is as it was if
none was fulfilled. -/
theorem get?_code (h : Ledger lib host w w' fs) (m : String) :
    w'.code.get? m
      = ((fs.filter fun f => f.task.name = m).getLast?.map Fulfilment.loaded).or
          (w.code.get? m) := by
  rw [h.code, CodeSession.get?_foldl_register, List.filter_map, List.getLast?_map]
  rfl

end Ledger

/-! ## Code -/

/-- What code under a ticket does: it acts on the entry under it alone, and what is produced
and loaded is that of compilations. -/
structure World.KeepsLedger (lib : FormLibrary) (host : Host) (t : Ticket) (w w' : World) :
    Prop where
  acted : Registry.ActedOn (some t) w.registry w'.registry
  ledger : ∃ fs, Ledger lib host w w' fs

theorem preparingConduct_keepsLedger (lib : FormLibrary) (host : Host) (t : Ticket) :
    PreparingConduct t (World.KeepsLedger lib host t) where
  refl w := ⟨.refl _ _, [], .refl w⟩
  trans h h' := by
    obtain ⟨fs, hledger⟩ := h.ledger
    obtain ⟨fs', hledger'⟩ := h'.ledger
    exact ⟨h.acted.trans h'.acted, fs ++ fs', hledger.trans hledger'⟩
  note w _ he := ⟨.refl _ _, [], .log w (Event.isClosing_of_isOfCode he)⟩
  change w _ _ _ _ := ⟨.update _ _ _, [], .of_quiet rfl rfl (List.append_nil _).symm rfl⟩
  log w _ he := ⟨.refl _ _, [], .log w he⟩
  move w _ _ _ _ := ⟨.update _ _ _, [], .of_quiet rfl rfl (List.append_nil _).symm rfl⟩

namespace Engine

section Opened

variable {lib : FormLibrary} {host : Host} {g : Engine} {o : Opening} {evaluate : EvaluateBody}
  (hhost : g.host.LetsDeliver)
  (hfire : g.FiresWithin o.scope (World.KeepsLedger lib host o.scope.ticket))
  (hevaluate : ∀ env, Within (World.KeepsLedger lib host o.scope.ticket) (evaluate env o.scope))
include hhost hfire hevaluate

/-- **An opened module lives**: its artifact is handed over after all that its body and its hooks
have left in the ledger, or it has failed before. -/
theorem meets_live_ledger (w : World) :
    Meets (w.KeepsLedger lib host o.scope.ticket) (g.live o evaluate)
      (fun c w' => ∃ w₁ es, w.KeepsLedger lib host o.scope.ticket w₁ ∧ fulfilledIn es = [] ∧
        w' = { w₁ with
          session := w₁.session.produce o.scope.module c.artifact
          code := w₁.code.register ⟨o.scope.module, c.artifact, .memory⟩
          log := w₁.log ++ es })
      (w.KeepsLedger lib host o.scope.ticket) := by
  have hR := preparingConduct_keepsLedger lib host o.scope.ticket
  have hopened : Within (World.KeepsLedger lib host o.scope.ticket)
      (Run.notify g.host "onModuleOpen" o.scope.module o.location
        (.opened o.scope.module o.location o.scope.env.compiling)) :=
    hR.within_notify _ _ _ _ fun w => hR.log w _ rfl
  have hprepared := (hR.within_prepare hfire hevaluate).meets hR.toConduct w
  rw [live, compileOpened_eq]
  refine .bind (hopened.meets hR.toConduct w) fun _ => ?_
  refine .bind hprepared fun answer w₁ hw₁ => ?_
  obtain ⟨value, m, a⟩ := answer
  obtain ⟨c, es, rfl, hes, hrun⟩ := handOver_returns hhost o value m a w₁
  simp only [hrun]
  exact ⟨w₁, es, hw₁, fulfilledIn_eq_nil hes, rfl⟩

/-- **An opened module is finished**: its artifact has reached the session and is loaded when it
is closed, or it is closed after it has failed. -/
theorem meets_finish_ledger {r : Registry} {e : ModuleEntry} {w : World}
    (hw : w.registry = r.add e) (ht : o.scope.ticket = r.entries.length) :
    Meets (fun w₁ => w₁ = w) (g.finish o evaluate)
      (fun c w' => ∃ w₁ fs es, Ledger lib host w w₁ fs ∧
        w'.session = w₁.session.produce o.scope.module c.artifact ∧
        w'.code = w₁.code.register ⟨o.scope.module, c.artifact, .memory⟩ ∧
        w'.log = w₁.log ++ es ∧ fulfilledIn es = [o.scope.module])
      (fun w' => ∃ fs, Ledger lib host w w' fs) := by
  rintro w rfl
  have hmeets := meets_live_ledger hhost hfire hevaluate w w ⟨.refl _ _, [], .refl w⟩
  rcases hlive : g.live o evaluate w with ⟨(f | _) | c, w'⟩
  · rw [hlive] at hmeets
    obtain ⟨hacted, fs, hledger⟩ := hmeets
    obtain ⟨e', he'⟩ := find?_of_actedOn ht (hw ▸ hacted)
    obtain ⟨r', events, hrun, -, hevents⟩ := finish_of_error hhost.reports hlive he'
    have hclosed : fulfilledIn events = [] := by
      rw [← fulfilledIn_observed, hevents]
      exact fulfilledIn_closingEvents o.scope.module e'.phase false
    rw [hrun]
    exact ⟨fs ++ [], hledger.trans (.of_quiet rfl rfl rfl hclosed)⟩
  · rw [finish_of_exhausted hlive]
    trivial
  · rw [hlive] at hmeets
    obtain ⟨w₁, es, ⟨hacted, fs, hledger⟩, hes, rfl⟩ := hmeets
    obtain ⟨e', he'⟩ := find?_of_actedOn ht (hw ▸ hacted)
    obtain ⟨r', events, hrun, -, hevents⟩ := finish_of_ok hhost.reports hlive he'
    have hclosed : fulfilledIn (es ++ events) = [o.scope.module] := by
      rw [fulfilledIn_append, hes, ← fulfilledIn_observed, hevents]
      exact fulfilledIn_closingEvents o.scope.module e'.phase true
    rw [hrun]
    exact ⟨w₁, fs, es ++ events, hledger, rfl, rfl, List.append_assoc _ _ _, hclosed⟩

end Opened
end Engine

namespace FormLibrary

section Keeping

variable (lib : FormLibrary) {host : Host} {depth : Nat}

section Delivering

variable (hhost : host.LetsDeliver)
include hhost

/-- **A compilation keeps the ledger**: what its body and its hooks have left in it stays, and it
comes last itself, if it is fulfilled. -/
theorem ledger_of_compile {t : Task} {w w' : World} {outcome : Except Failure CompiledModule}
    (hfire : ∀ scope, (lib.engine host depth).FiresWithin scope
      (World.KeepsLedger lib host scope.ticket))
    (hevaluate : ∀ env scope, Within (World.KeepsLedger lib host scope.ticket)
      (lib.evaluation (lib.engine host depth) t.body env scope))
    (hsettles : ((lib.engine host depth).compile t.name t.env
      (lib.evaluation (lib.engine host depth) t.body)).SettlesAs w outcome w') :
    ∃ fs, Ledger lib host w w' fs ∧ ∀ compiled, outcome = .ok compiled →
      fs.getLast? = some ⟨depth, t, w, compiled, w'⟩ := by
  have hdeliver : (lib.engine host depth).host.LetsDeliver := (host_engine depth).symm ▸ hhost
  have hcompile := hsettles
  rw [SettlesAs, Engine.compile, bind_apply] at hsettles
  rcases Engine.openModule_cases (lib.engine host depth) t.name t.env w with
    ⟨f, ds, hopen, -⟩ | ⟨-, hopen⟩
  · rw [hopen] at hsettles
    obtain ⟨houtcome, rfl⟩ := Prod.mk.inj hsettles
    refine ⟨[], .of_quiet rfl rfl rfl (fulfilledIn_warned _ _), fun compiled h => ?_⟩
    subst h
    cases houtcome
  · rw [hopen] at hsettles
    let o := (lib.engine host depth).opening t.name t.env w
    let w₁ : World := { w with
      registry := w.registry.add ((lib.engine host depth).newEntry t.name t.env w)
      log := w.log ++ o.warnings.map (.warned t.name) }
    have hopened : Ledger lib host w w₁ [] := .of_quiet rfl rfl rfl (fulfilledIn_warned _ _)
    have hmeets := Engine.meets_finish_ledger hdeliver (hfire o.scope)
      (fun env => hevaluate env o.scope) (w := w₁) rfl rfl w₁ rfl
    rw [show Engine.finish _ o _ w₁ = _ from hsettles] at hmeets
    cases outcome with
    | error f =>
      obtain ⟨fs, hledger⟩ := hmeets
      refine ⟨[] ++ fs, hopened.trans hledger, fun compiled h => ?_⟩
      cases h
    | ok c =>
      obtain ⟨w₂, fs, es, hledger, hsession, hcode, hlog, hes⟩ := hmeets
      let own : Fulfilment := ⟨depth, t, w, c, w'⟩
      refine ⟨[] ++ fs ++ [own], (hopened.trans hledger).conclude (f := own) hcompile hsession hcode
        hlog hes, fun compiled h => ?_⟩
      cases h
      exact List.getLast?_concat

/-- Code keeps the ledger, as deep as hooks may call each other. -/
theorem depthLaw_keepsLedger :
    DepthLaw lib host .all 0 (fun _ t => within (World.KeepsLedger lib host t))
      fun _ t => within (World.KeepsLedger lib host t) where
  forms f _ := Vocabulary.admits_all f
  library depth :=
    have hR (scope : ModuleScope) : CodeConduct scope.ticket
        (World.KeepsLedger lib host scope.ticket) :=
      (preparingConduct_keepsLedger lib host scope.ticket).toCodeConduct
    { host := by rw [host_engine, host_engine]
      code := fun scope => (hR scope).scopeLaw
      hooks := fun scope => (hR scope).scopeLaw
      define := fun scope n _ hhooks => (hR scope).within_define hhooks n
      compile := fun name env body _ hfire hevaluate t w hw => by
        obtain ⟨outcome, w', hsettles⟩ := exists_settlesAs hw
        have hacted : Registry.ActedOn none w.registry w'.registry := by
          have h := Engine.actedOn_compile ((host_engine depth).symm ▸ hhost.reports)
            (fun scope phase target subject env =>
              (hfire scope phase target subject env).mono fun _ _ h => h.acted)
            (fun env scope => (hevaluate env scope).mono fun _ _ h => h.acted) name env w hw
          rwa [hsettles] at h
        obtain ⟨fs, hledger, -⟩ :=
          ledger_of_compile lib hhost (t := ⟨name, env, body⟩) hfire hevaluate hsettles
        rw [hsettles]
        exact ⟨hacted.of_none _, fs, hledger⟩ }
  -- no call is left: the run is exhausted, of which nothing is said
  exhausted _ _ _ _ hw := (hw rfl).elim
  descend _ _ _ _ _ h := h

/-- **A compilation settles and keeps the ledger.** -/
theorem exists_ledger_of_compile (t : Task) (w : World) :
    ∃ outcome w' fs, (lib.compile host t.name t.env t.body).SettlesAs w outcome w' ∧
      Ledger lib host w w' fs ∧ ∀ compiled, outcome = .ok compiled →
        fs.getLast? = some ⟨lib.depth t.body, t, w, compiled, w'⟩ := by
  obtain ⟨outcome, w', hsettles⟩ :=
    exists_settlesAs (compile_ne_exhausted lib host t.name t.body t.env w)
  have hL := depthLaw_keepsLedger lib hhost
  obtain ⟨fs, hledger⟩ := ledger_of_compile lib hhost (hL.fires (lib.depth t.body))
    (fun env scope => hL.evalBody (lib.depth t.body) scope (.value .null) env fun f _ =>
      Vocabulary.admits_all f) hsettles
  exact ⟨outcome, w', fs, hsettles, hledger⟩

end Delivering

/-- **A fulfilled compilation reports the redefinition** of a name that was loaded. -/
theorem reportsRedefinition {f : Fulfilment} (hf : f.IsRun lib host) :
    f.ReportsRedefinition host := by
  have hhost : (lib.engine host f.depth).host = host := host_engine f.depth
  have hfire (scope : ModuleScope) : (lib.engine host f.depth).FiresWithin scope World.Path :=
    firesWithin_engine (compileConduct_path host) f.depth scope
  obtain ⟨others, hwarnings, hothers, hlog⟩ := Engine.warnings_of_compile (hfire _)
    (fun inner => within_evalBody (compileConduct_path host) hhost hfire _ _ inner f.task.body) hf
  refine ⟨_, others, hwarnings, ?_, hothers, hlog⟩
  simp only [Engine.opening, hhost]
  cases host.options.ignoreModuleConflict with
  | true => rfl
  | false => cases f.before.code.get? f.task.name <;> rfl

end Keeping

/-! ## Compilations in turn -/

/-- Compile modules one after the other, whatever becomes of each. -/
def compileEach (lib : FormLibrary) (host : Host) :
    List Task → Run (List (Except Failure CompiledModule))
  | [] => pure []
  | t :: rest => do
    let outcome ← Run.attempt (lib.compile host t.name t.env t.body)
    let outcomes ← lib.compileEach host rest
    pure (outcome :: outcomes)

/-- The tasks that were fulfilled, each with what it was compiled to. -/
def fulfilledTasks (tasks : List Task) (outcomes : List (Except Failure CompiledModule)) :
    List (Task × CompiledModule) :=
  (tasks.zip outcomes).filterMap fun (t, outcome) => outcome.toOption.map (t, ·)

/-- **Compilations in turn keep the ledger**, and all that are fulfilled are in it. -/
theorem ledger_of_compileEach (lib : FormLibrary) {host : Host} (hhost : host.LetsDeliver)
    (tasks : List Task) (w : World) :
    ∃ outcomes w' fs, lib.compileEach host tasks w = (.ok outcomes, w') ∧
      outcomes.length = tasks.length ∧
      (fulfilledTasks tasks outcomes).Sublist (fs.map fun f => (f.task, f.compiled)) ∧
      Ledger lib host w w' fs := by
  induction tasks generalizing w with
  | nil => exact ⟨[], w, [], rfl, rfl, List.Sublist.slnil, .refl w⟩
  | cons t rest ih =>
    obtain ⟨outcome, w₁, fs₁, hsettles, hledger₁, hlast⟩ :=
      exists_ledger_of_compile lib hhost t w
    obtain ⟨outcomes, w', fs, hrun, hlength, hsub, hledger⟩ := ih w₁
    have hattempt : attempt (lib.compile host t.name t.env t.body) w = (.ok outcome, w₁) := by
      rw [attempt, hsettles]
      cases outcome <;> rfl
    refine ⟨outcome :: outcomes, w', fs₁ ++ fs, ?_, congrArg Nat.succ hlength, ?_,
      hledger₁.trans hledger⟩
    · rw [compileEach, bind_apply, hattempt]
      simp only [bind_apply, hrun]
      rfl
    · rw [List.map_append]
      cases outcome with
      | error f => exact hsub.trans (List.sublist_append_right _ _)
      | ok compiled =>
        have hmem := List.mem_of_getLast? (hlast compiled rfl)
        have hown : [(t, compiled)].Sublist (fs₁.map fun f => (f.task, f.compiled)) :=
          List.singleton_sublist.mpr (List.mem_map.mpr ⟨_, hmem, rfl⟩)
        exact hown.append hsub

/-! ## The law -/

/-- **What is fulfilled is delivered, and nothing else.**  If the host lets artifacts be
delivered, compilations in turn all settle, whatever becomes of each.  The artifacts that the
session has got are those of the compilations that were fulfilled, nested ones included, in the
order in which they ended; a name is loaded with the artifact of the last of its own, and as it
was if there is none.  Each has reported a redefinition exactly if its name was loaded when it
was opened and that is to be reported. -/
theorem compileEach_delivers (lib : FormLibrary) (host : Host) (hhost : host.LetsDeliver)
    (tasks : List Task) (w : World) :
    ∃ outcomes w' fs, lib.compileEach host tasks w = (.ok outcomes, w') ∧
      outcomes.length = tasks.length ∧
      (fulfilledTasks tasks outcomes).Sublist (fs.map fun f => (f.task, f.compiled)) ∧
      Ledger lib host w w' fs ∧
      (∀ m, w'.code.get? m
        = ((fs.filter fun f => f.task.name = m).getLast?.map Fulfilment.loaded).or
            (w.code.get? m)) ∧
      ∀ f ∈ fs, f.ReportsRedefinition host := by
  obtain ⟨outcomes, w', fs, hrun, hlength, hsub, hledger⟩ :=
    ledger_of_compileEach lib hhost tasks w
  exact ⟨outcomes, w', fs, hrun, hlength, hsub, hledger, hledger.get?_code,
    fun f hf => reportsRedefinition lib (hledger.runs f hf)⟩

/-! ## A module that is compiled again and fails -/

namespace Recompiling

/-- A host whose observers fail at every event, with a listener. -/
def host : Host where
  options := .default "/work"
  observe _ := some (.typeError "no observer")
  warn _ := none
  listener := some fun _ => none
  loader := none

def env : CompileEnv := ⟨"outer", 1, none, none, []⟩

/-- A module with one nested in it, which fails when it is compiled again, after the nested
one. -/
def tasks : List Task :=
  [⟨"Outer", env, [.module none "Inner" []]⟩,
    ⟨"Outer", env, [.module none "Inner" [], .act none (.raise "no more")]⟩]

/-- The world before: nothing is open or loaded. -/
def before : World := ⟨.empty, .empty, ⟨"run", []⟩, []⟩

end Recompiling

open Recompiling in
theorem compileEach_delivers_recompiling :
    Recompiling.host.LetsDeliver ∧ ∃ outcomes w' fs,
      compileEach ⟨[], []⟩ Recompiling.host tasks before = (.ok outcomes, w') ∧
      outcomes.map Except.isOk = [true, false] ∧
      fs.map (fun f => f.task.name) = ["Inner", "Outer", "Inner"] ∧
      Ledger ⟨[], []⟩ Recompiling.host before w' fs ∧
      ∀ f ∈ fs, f.ReportsRedefinition Recompiling.host := by
  have hhost : Recompiling.host.LetsDeliver :=
    { reports := ⟨fun _ => rfl, fun _ _ h => Option.some.inj h ▸ ⟨_, rfl⟩⟩
      listener := fun _ h _ => Option.some.inj h ▸ rfl
      loader := rfl }
  obtain ⟨outcomes, w', fs, hrun, -, -, hledger, -, hreports⟩ :=
    compileEach_delivers ⟨[], []⟩ Recompiling.host hhost tasks before
  have hends : ((compileEach ⟨[], []⟩ Recompiling.host tasks before).1.toOption.map
        (List.map Except.isOk), fulfilledIn
          (compileEach ⟨[], []⟩ Recompiling.host tasks before).2.log)
      = (some [true, false], ["Inner", "Outer", "Inner"]) := by decide +kernel
  rw [hrun] at hends
  obtain ⟨houtcomes, hnames⟩ := Prod.mk.inj hends
  obtain ⟨es, hlog, hes⟩ := hledger.closings
  refine ⟨hhost, outcomes, w', fs, hrun, Option.some.inj houtcomes, ?_, hledger, hreports⟩
  rw [← hes, ← hnames]
  exact congrArg fulfilledIn (hlog.trans (List.nil_append es)).symm

end FormLibrary
end ModuleBuild
