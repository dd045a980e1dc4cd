import ModuleBuild.Proofs.Compile.Pipeline
import ModuleBuild.Proofs.Failure.Wording
import ModuleBuild.Proofs.Registry.Frame

/-! # Opening and closing

Opening a module adds its entry under the next ticket, or changes nothing but the log
(`openModule_cases`).  Once a module is open, its body and its hooks act on its entry
only, so the entry is still there when the module is closed, whatever went wrong before.
If the receiver of warnings always returns and no observer fails with what cannot be described,
telling an observer cannot stop the closing (`notify_returns`): the life of an opened module
ends with its closing (`finish_of_ok`, `finish_of_error`), and a compilation leaves the registry
of its caller as it was (`actedOn_compile`).
-/
namespace ModuleBuild

open Run

/-! ## What observers are told -/

/-- The module whose life observers are told of by an event. -/
def Event.observed? : Event → Option String
  | .opened m .. | .moved m _ | .available m .. | .failed m _ | .closed m _ => some m
  | _ => none

theorem Event.observed?_of_isOfCode {e : Event} (h : e.isOfCode = true) : e.observed? = none := by
  cases e with
  | opened | moved | available | failed | closed => cases h
  | _ => rfl

/-- The events that observers are told of. -/
def observed (log : List Event) : List Event := log.filter fun e => e.observed?.isSome

@[simp] theorem observed_append (log log' : List Event) :
    observed (log ++ log') = observed log ++ observed log' :=
  List.filter_append ..

/-- Observers are not told of warnings. -/
theorem observed_of_warnings {log : List Event} (h : ∀ e ∈ log, ∃ m d, e = .warned m d) :
    observed log = [] := by
  refine List.filter_eq_nil_iff.mpr fun e he => ?_
  obtain ⟨m, d, rfl⟩ := h e he
  simp [Event.observed?]

theorem observed_warned (m : String) (ds : List Diagnostic) :
    observed (ds.map (.warned m)) = [] :=
  observed_of_warnings fun _ he => by
    obtain ⟨d, -, rfl⟩ := List.mem_map.mp he
    exact ⟨m, d, rfl⟩

/-- The failure of an observer is reported, whenever it fails: it can be said why, and the receiver
of warnings returns. -/
structure Host.ReportsReturn (host : Host) : Prop where
  warn : ∀ log, host.warn log = none
  words : ∀ log, ∀ f ∈ host.observe log, f.HasWords

theorem Host.ReportsReturn.wordless?_eq_none {host : Host} (h : host.ReportsReturn)
    (log : List Event) : host.wordless? log = none := by
  cases hfail : host.wordless? log with
  | none => rfl
  | some e =>
    obtain ⟨f, hf, he⟩ := wordless?_eq_some_iff.mp hfail
    obtain ⟨text, htext⟩ := h.words log f hf
    cases htext.symm.trans he

/-- Code under a ticket acts on the entry under it alone. -/
theorem scopeConduct_actedOn (t : Ticket) :
    ScopeConduct t fun w w' => Registry.ActedOn (some t) w.registry w'.registry where
  refl w := .refl _ w.registry
  trans h₁ h₂ := h₁.trans h₂
  note w _ _ := .refl _ w.registry
  change w _ _ _ _ := .update w.registry t _
  log w _ _ := .refl _ w.registry
  move w _ _ _ _ := .update w.registry t _
  produce w _ _ := .refl _ w.registry
  register w _ := .refl _ w.registry

namespace Run

variable {host : Host} (hreports : host.ReportsReturn)
include hreports

theorem warn_returns (m : String) (d : Diagnostic) (w : World) :
    warn host m d w = (.ok (), { w with log := w.log ++ [.warned m d] }) := by
  rw [warn_apply, hreports.warn]

/-- Telling an observer returns, even if the observer fails: then there is a warning of
it. -/
theorem notify_returns (callback m : String) (l : Location) (e : Event) (w : World) :
    ∃ extra, (∀ x ∈ extra, ∃ m d, x = .warned m d) ∧
      notify host callback m l e w = (.ok (), { w with log := w.log ++ [e] ++ extra }) := by
  rw [notify_apply, hreports.wordless?_eq_none]
  dsimp only
  cases host.report? callback m l (w.log ++ [e]) with
  | none => exact ⟨[], by simp, by rw [List.append_nil]⟩
  | some d => exact ⟨[.warned m d], by simp, warn_returns hreports m d _⟩

end Run

namespace Engine

/-! ## Opening -/

/-- A module that is about to be opened. -/
def opening (g : Engine) (name : String) (env : CompileEnv) (w : World) : Opening :=
  let location : Location := ⟨Path.relativeTo g.host.options.relativeTo env.file, env.line⟩
  let loaded := if g.host.options.ignoreModuleConflict then none else w.code.get? name
  { scope := ⟨name, w.registry.entries.length, { env with
      module := some name, function := none, compiling := env.compiling ++ [name] }⟩
    location
    warnings := (Registry.redefinition? loaded name location).toList }

/-- The entry of a module that is about to be opened. -/
def newEntry (g : Engine) (name : String) (env : CompileEnv) (w : World) : ModuleEntry :=
  .new name w.session.id (g.opening name env w).location g.host.options.docs

/-- The name of a module is open under its ticket once the entry is added. -/
theorem get?_opened_opening (g : Engine) (name : String) (env : CompileEnv) (w : World) :
    (w.registry.add (g.newEntry name env w)).opened.get? name
      = some (g.opening name env w).scope.ticket := by
  rw [Registry.opened_add, OrderedMap.get?_insert]
  exact if_pos rfl

theorem find?_opening (g : Engine) (name : String) (env : CompileEnv) (w : World) :
    (w.registry.add (g.newEntry name env w)).find? (g.opening name env w).scope.ticket
      = some (g.newEntry name env w) := by
  rw [Registry.find?_add]
  exact if_pos rfl

/-- What was open before is open under another ticket. -/
theorem get?_opened_of_opening {g : Engine} {name m : String} {env : CompileEnv} {w : World}
    {t : Ticket} (hname : w.registry.opened.get? name = none)
    (hm : w.registry.opened.get? m = some t) :
    t ≠ (g.opening name env w).scope.ticket ∧
      (w.registry.add (g.newEntry name env w)).opened.get? m = some t := by
  refine ⟨Nat.ne_of_lt (Registry.lt_length_of_opened hm), ?_⟩
  rw [Registry.opened_add, OrderedMap.get?_insert, if_neg]
  · exact hm
  · rintro rfl
    cases hname.symm.trans hm

theorem forM_warn_cases (host : Host) (m : String) (d : Option Diagnostic) (w : World) :
    (∃ f, d.forM (warn host m) w
        = (.error (.failed f), { w with log := w.log ++ d.toList.map (.warned m) })) ∨
      d.forM (warn host m) w = (.ok (), { w with log := w.log ++ d.toList.map (.warned m) }) := by
  cases d with
  | none =>
    right
    rw [Option.toList_none, List.map_nil, List.append_nil]
    rfl
  | some d =>
    change (∃ f, warn host m d w = _) ∨ warn host m d w = _
    rw [warn_apply]
    cases host.warn (w.log ++ [.warned m d]) with
    | none => exact .inr rfl
    | some f => exact .inl ⟨f, rfl⟩

/-- What the registry answers when a module is opened. -/
def registryAnswer (g : Engine) (name : String) (env : CompileEnv) (w : World) :
    Option Diagnostic × Except Problem (Ticket × Registry) :=
  w.registry.openModule
    (if g.host.options.ignoreModuleConflict then none else w.code.get? name) name w.session.id
    (g.opening name env w).location g.host.options.docs

/-- Opening a module warns of a loaded version first, and goes on if the receiver returns. -/
theorem openModule_apply (g : Engine) (name : String) (env : CompileEnv) (w : World) :
    g.openModule name env w = match (g.registryAnswer name env w).1.forM (warn g.host name) w with
      | (.error s, w') => (.error s, w')
      | (.ok _, w') => match (g.registryAnswer name env w).2 with
        | .error p => (.error (.failed (.ofProblem p)), w')
        | .ok (t, registry) =>
          (.ok { g.opening name env w with
            scope := { (g.opening name env w).scope with ticket := t }
            warnings := (g.registryAnswer name env w).1.toList }, { w' with registry }) := by
  unfold openModule registryAnswer opening
  rw [bind_apply, get_apply]
  simp only
  rw [bind_apply]
  generalize w.registry.openModule _ _ _ _ _ = answer
  obtain ⟨d, opened⟩ := answer
  rcases d.forM (warn g.host name) w with ⟨s | a, w'⟩
  · rfl
  · rcases opened with p | ⟨t, r⟩ <;> rfl

/-- **A module is opened or it is not**: if it is, its name was not open, and its entry is
added; if not, nothing changes but that it may have been warned of a loaded version. -/
theorem openModule_cases (g : Engine) (name : String) (env : CompileEnv) (w : World) :
    (∃ (f : Failure) (ds : List Diagnostic), g.openModule name env w
        = (.error (.failed f), { w with log := w.log ++ ds.map (.warned name) }) ∧
        ∀ d ∈ ds, d.code = .moduleRedefined) ∨
      w.registry.opened.get? name = none ∧
        g.openModule name env w = (.ok (g.opening name env w),
          { w with
            registry := w.registry.add (g.newEntry name env w)
            log := w.log ++ (g.opening name env w).warnings.map (.warned name) }) := by
  rw [openModule_apply]
  have hcode : ∀ d ∈ (g.registryAnswer name env w).1.toList, d.code = .moduleRedefined :=
    fun d hd => w.registry.code_of_mem_openModule (Option.mem_toList.mp hd)
  rcases forM_warn_cases g.host name (g.registryAnswer name env w).1 w with ⟨f, hwarned⟩ | hwarned
  · exact .inl ⟨f, (g.registryAnswer name env w).1.toList, by rw [hwarned], hcode⟩
  · rw [hwarned]
    cases hopened : (g.registryAnswer name env w).2 with
    | error p => exact .inl ⟨_, (g.registryAnswer name env w).1.toList, rfl, hcode⟩
    | ok answer =>
      obtain ⟨t, r⟩ := answer
      obtain ⟨hrefusal, hname, rfl, rfl⟩ := Registry.openModule_ok_iff.mp hopened
      have hwarning : (g.registryAnswer name env w).1.toList = (g.opening name env w).warnings := by
        simp only [registryAnswer, Registry.openModule, hrefusal]
        rfl
      refine .inr ⟨hname, ?_⟩
      rw [hwarning]
      rfl

/-! ## Closing -/

/-- What observers are told when a module in a phase is closed. -/
def closingEvents (module : String) (p : Phase) (fulfilled : Bool) : List Event :=
  p.close?.toList.map (.moved module) ++ [.closed module fulfilled]

variable {g : Engine}

section Returning

variable (hreports : g.host.ReportsReturn)
include hreports

theorem move_returns (o : Opening) (m : Phase.Move) (w : World) :
    ∃ extra, (∀ x ∈ extra, ∃ m d, x = .warned m d) ∧
      g.move o m w = (.ok (), { w with
        registry := w.registry.update o.scope.ticket fun s => { s with phase := m.2 }
        log := w.log ++ [.moved o.scope.module m] ++ extra }) := by
  unfold move
  rw [bind_apply, updateEntry, modify_apply]
  exact notify_returns hreports ..

/-- A module that has an entry is closed, and nothing but the entry is touched
before. -/
theorem closeModule_returns {o : Opening} (fulfilled : Bool) {w : World} {e : ModuleEntry}
    (he : w.registry.find? o.scope.ticket = some e) :
    ∃ r events, g.closeModule o fulfilled w
        = (.ok (), { w with registry := r.close o.scope.ticket, log := w.log ++ events }) ∧
      Registry.ActedOn (some o.scope.ticket) w.registry r ∧
      observed events = closingEvents o.scope.module e.phase fulfilled := by
  have hclose (w₁ : World) : ∃ extra, (∀ x ∈ extra, ∃ m d, x = .warned m d) ∧
      (do
        modify fun w : World => { w with registry := w.registry.close o.scope.ticket }
        notify g.host "onModuleClose" o.scope.module o.location
          (.closed o.scope.module fulfilled) : Run Unit) w₁
        = (.ok (), { w₁ with
          registry := w₁.registry.close o.scope.ticket
          log := w₁.log ++ [.closed o.scope.module fulfilled] ++ extra }) := by
    rw [bind_apply, modify_apply]
    exact notify_returns hreports ..
  unfold closeModule
  rw [bind_apply, entry_apply, he]
  -- a module that has reached the last phase makes no further move
  cases hphase : e.phase.close? with
  | none =>
    obtain ⟨extra, hextra, hrun⟩ := hclose w
    refine ⟨w.registry, [.closed o.scope.module fulfilled] ++ extra, ?_, .refl _ _, ?_⟩
    · simp only [hphase, ← List.append_assoc]
      exact hrun
    · rw [observed_append, observed_of_warnings hextra, closingEvents, hphase]
      rfl
  | some m =>
    obtain ⟨moreExtra, hmoreExtra, hmove⟩ := move_returns hreports o m w
    obtain ⟨extra, hextra, hrun⟩ := hclose
      { w with
        registry := w.registry.update o.scope.ticket fun s => { s with phase := m.2 }
        log := w.log ++ [.moved o.scope.module m] ++ moreExtra }
    refine ⟨w.registry.update o.scope.ticket fun s => { s with phase := m.2 },
      [.moved o.scope.module m] ++ moreExtra ++ [.closed o.scope.module fulfilled] ++ extra,
      ?_, .update _ _ _, ?_⟩
    · simp only [hphase, bind_apply, hmove]
      simp only [← List.append_assoc]
      exact hrun
    · rw [observed_append, observed_append, observed_append, observed_of_warnings hextra,
        observed_of_warnings hmoreExtra, closingEvents, hphase]
      rfl

/-- A failure reaches the observer as it reaches the caller. -/
theorem reject_returns {α : Type} (o : Opening) (f : Failure) (w : World) :
    ∃ extra, (∀ x ∈ extra, ∃ m d, x = .warned m d) ∧
      g.reject (α := α) o f w
        = (.error (.failed (f.normalize o.scope.module o.location)), { w with
            log := w.log ++ [.failed o.scope.module (f.normalize o.scope.module o.location)]
              ++ extra }) := by
  obtain ⟨extra, hextra, hnotify⟩ := notify_returns hreports "onError" o.scope.module o.location
    (.failed o.scope.module (f.normalize o.scope.module o.location)) w
  refine ⟨extra, hextra, ?_⟩
  unfold reject
  rw [bind_apply, hnotify]
  rfl

/-- **A module that was compiled is closed**, and its artifact is the result. -/
theorem finish_of_ok {o : Opening} {evaluate : EvaluateBody} {w w₁ : World} {c : CompiledModule}
    {e : ModuleEntry} (hlive : g.live o evaluate w = (.ok c, w₁))
    (he : w₁.registry.find? o.scope.ticket = some e) :
    ∃ r events, g.finish o evaluate w
        = (.ok c, { w₁ with registry := r.close o.scope.ticket, log := w₁.log ++ events }) ∧
      Registry.ActedOn (some o.scope.ticket) w₁.registry r ∧
      observed events = closingEvents o.scope.module e.phase true := by
  obtain ⟨r, events, hclose, hact, hevents⟩ := closeModule_returns hreports true he
  have hattempt : attempt (g.live o evaluate) w = (.ok (.ok c), w₁) := by
    rw [attempt, hlive]
  refine ⟨r, events, ?_, hact, hevents⟩
  rw [finish_eq, bind_apply, hattempt]
  simp only [conclude, bind_apply, hclose]
  rfl

/-- **A module whose compilation failed is closed**, after the observer was told of the
failure, which is the result. -/
theorem finish_of_error {o : Opening} {evaluate : EvaluateBody} {w w₁ : World} {f : Failure}
    {e : ModuleEntry} (hlive : g.live o evaluate w = (.error (.failed f), w₁))
    (he : w₁.registry.find? o.scope.ticket = some e) :
    ∃ r events, g.finish o evaluate w
        = (.error (.failed (f.normalize o.scope.module o.location)),
          { w₁ with registry := r.close o.scope.ticket, log := w₁.log ++ events }) ∧
      Registry.ActedOn (some o.scope.ticket) w₁.registry r ∧
      observed events = .failed o.scope.module (f.normalize o.scope.module o.location)
        :: closingEvents o.scope.module e.phase false := by
  obtain ⟨extra, hextra, hreject⟩ := reject_returns hreports (α := CompiledModule) o f w₁
  have hattempt : attempt (g.live o evaluate) w = (.ok (.error f), w₁) := by
    rw [attempt, hlive]
  have hrejected : attempt (g.reject (α := CompiledModule) o f) w₁
      = (.ok (.error (f.normalize o.scope.module o.location)), { w₁ with
        log := w₁.log ++ [.failed o.scope.module (f.normalize o.scope.module o.location)]
          ++ extra }) := by
    rw [attempt, hreject]
  obtain ⟨r, events, hclose, hact, hevents⟩ := closeModule_returns hreports (o := o) false
    (w := { w₁ with
      log := w₁.log ++ [.failed o.scope.module (f.normalize o.scope.module o.location)]
        ++ extra }) he
  refine ⟨r, [.failed o.scope.module (f.normalize o.scope.module o.location)] ++ extra ++ events,
    ?_, hact, ?_⟩
  · rw [finish_eq, bind_apply, hattempt]
    simp only [conclude, bind_apply, hrejected, hclose, ← List.append_assoc]
    rfl
  · rw [observed_append, observed_append, observed_of_warnings hextra, hevents]
    rfl

end Returning

theorem finish_of_exhausted {o : Opening} {evaluate : EvaluateBody} {w w₁ : World}
    (hlive : g.live o evaluate w = (.error .exhausted, w₁)) :
    g.finish o evaluate w = (.error .exhausted, w₁) := by
  have hattempt : attempt (g.live o evaluate) w = (.error .exhausted, w₁) := by
    rw [attempt, hlive]
  rw [finish_eq, bind_apply, hattempt]

/-! ## From opening to closing -/

/-- An opened module that code acts on keeps its entry. -/
theorem find?_of_actedOn {o : Opening} {r r' : Registry} {e : ModuleEntry}
    (ht : o.scope.ticket = r.entries.length)
    (hact : Registry.ActedOn (some o.scope.ticket) (r.add e) r') :
    ∃ e', r'.find? o.scope.ticket = some e' := by
  rw [ht] at hact ⊢
  obtain ⟨-, e', he', -⟩ := hact.own
  exact ⟨e', he'⟩

section Restoring

variable (hreports : g.host.ReportsReturn)
include hreports

/-- **However the compilation of an opened module ends, the module is closed**, and
nothing but its entry is touched before. -/
theorem registry_finish {o : Opening} {evaluate : EvaluateBody} {r : Registry} {e : ModuleEntry}
    {w : World} (hw : w.registry = r.add e) (ht : o.scope.ticket = r.entries.length)
    (hfire : g.FiresWithin o.scope fun w w' =>
      Registry.ActedOn (some o.scope.ticket) w.registry w'.registry)
    (hevaluate : ∀ env, Within
      (fun w w' => Registry.ActedOn (some o.scope.ticket) w.registry w'.registry)
      (evaluate env o.scope))
    (hsettles : (g.finish o evaluate w).1 ≠ .error .exhausted) :
    ∃ r₂, Registry.ActedOn (some o.scope.ticket) w.registry r₂ ∧
      (g.finish o evaluate w).2.registry = r₂.close o.scope.ticket := by
  have hwithin := (scopeConduct_actedOn o.scope.ticket).within_live hfire hevaluate w
  rcases hlive : g.live o evaluate w with ⟨(f | _) | c, w₁⟩
  · rw [hlive] at hwithin
    have hact := hwithin nofun
    obtain ⟨e', he'⟩ := find?_of_actedOn ht (hw ▸ hact)
    obtain ⟨r₂, events, hrun, hact', -⟩ := finish_of_error hreports hlive he'
    exact ⟨r₂, hact.trans hact', by rw [hrun]⟩
  · rw [finish_of_exhausted hlive] at hsettles
    exact (hsettles rfl).elim
  · rw [hlive] at hwithin
    have hact := hwithin nofun
    obtain ⟨e', he'⟩ := find?_of_actedOn ht (hw ▸ hact)
    obtain ⟨r₂, events, hrun, hact', -⟩ := finish_of_ok hreports hlive he'
    exact ⟨r₂, hact.trans hact', by rw [hrun]⟩

/-- **A compilation acts on no entry of its caller's.** -/
theorem actedOn_compile {evaluate : EvaluateBody}
    (hfire : ∀ scope, g.FiresWithin scope fun w w' =>
      Registry.ActedOn (some scope.ticket) w.registry w'.registry)
    (hevaluate : ∀ env scope, Within
      (fun w w' => Registry.ActedOn (some scope.ticket) w.registry w'.registry)
      (evaluate env scope))
    (name : String) (env : CompileEnv) :
    Within (fun w w' => Registry.ActedOn none w.registry w'.registry)
      (g.compile name env evaluate) := by
  intro w hsettles
  unfold compile at hsettles ⊢
  rw [bind_apply] at hsettles ⊢
  rcases openModule_cases g name env w with ⟨f, ds, hopen, -⟩ | ⟨hname, hopen⟩
  · rw [hopen]
    exact .refl _ _
  · simp only [hopen] at hsettles ⊢
    obtain ⟨r₂, hact, hw'⟩ := registry_finish hreports (o := g.opening name env w) rfl rfl (hfire _)
      (fun env => hevaluate env _) hsettles
    rw [hw']
    exact .of_opened_closed hname hact

end Restoring
end Engine
end ModuleBuild
