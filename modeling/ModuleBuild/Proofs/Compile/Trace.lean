import ModuleBuild.Proofs.Compile.Teardown

/-! # What observers see

Observers are told of the life of a module: that it was opened, each of its moves, that its
artifact is available, that it failed, and that it was closed.  What they are told in one
life, and of the modules that are compiled in the course of it, is a `Trace`.

Code of a module changes nothing of that but for the whole traces of modules nested in it
(`World.Nests`); the steps of the pipeline take the trace from one stage to the next
(`InLife`).  So a compilation that has opened its module leaves a complete trace
(`trace_of_compile`).
-/
namespace ModuleBuild

open Run

/-! ## Traces -/

/-- How far the life of a module has come, as observers see it. -/
inductive LifeStage where
  /-- The module is in a phase; its artifact was announced or not. -/
  | inPhase (p : Phase) (announced : Bool)
  /-- The module is closed, after it failed or not. -/
  | ended (failure : Option Failure)

/-- The failure that a compilation ends with, if it does. -/
def failureOf {α : Type} : Except Failure α → Option Failure
  | .ok _ => none
  | .error f => some f

/-- What observers are told of a module up to a stage of its life, with what they are told of
the modules nested in it: their traces are complete and stand in the phase that compiled
them. -/
inductive Trace : String → LifeStage → List Event → Prop where
  | opened (m : String) (l : Location) (compiling : List String) :
      Trace m (.inPhase .evaluating false) [.opened m l compiling]
  | nested {m inner : String} {p : Phase} {failure : Option Failure} {es is : List Event}
      (h : Trace m (.inPhase p false) es) (hinner : Trace inner (.ended failure) is)
      (hother : ∀ e ∈ is, e.observed? ≠ some m) : Trace m (.inPhase p false) (es ++ is)
  | advanced {m : String} {p q : Phase} {es : List Event} (h : Trace m (.inPhase p false) es)
      (hnext : p.next? = some q) (hq : q ≠ .closed) :
      Trace m (.inPhase q false) (es ++ [.moved m (p, q)])
  | available {m : String} {es : List Event} (h : Trace m (.inPhase .afterHooks false) es)
      (id : String) (size : Nat) :
      Trace m (.inPhase .afterHooks true) (es ++ [.available m id size])
  | fulfilled {m : String} {es : List Event} (h : Trace m (.inPhase .afterHooks true) es) :
      Trace m (.ended none) (es ++ [.moved m (.afterHooks, .closed), .closed m true])
  | rejected {m : String} {p : Phase} {announced : Bool} {es : List Event}
      (h : Trace m (.inPhase p announced) es) (f : Failure) :
      Trace m (.ended (some f))
        (es ++ [.failed m f, .moved m (p, .closed), .closed m false])

/-- The events of one module. -/
def eventsOf (m : String) (es : List Event) : List Event :=
  es.filter fun e => e.observed? = some m

@[simp] theorem eventsOf_append (m : String) (es es' : List Event) :
    eventsOf m (es ++ es') = eventsOf m es ++ eventsOf m es' :=
  List.filter_append ..

theorem eventsOf_eq_nil {m : String} {es : List Event} (h : ∀ e ∈ es, e.observed? ≠ some m) :
    eventsOf m es = [] :=
  List.filter_eq_nil_iff.mpr fun e he => by simp [h e he]

/-- These are the events of a module from its opening to a phase, with that of its artifact if
that was announced: there. -/
def IsLifeTo (m : String) (p : Phase) : Bool → List Event → Prop
  | false, es => ∃ l compiling, es = .opened m l compiling :: p.route.map (.moved m)
  | true, es => p = .afterHooks ∧ ∃ l compiling id size,
      es = .opened m l compiling :: p.route.map (.moved m) ++ [.available m id size]

/-- These are the events of a module from its opening to its closing.  It went from phase to
phase and then was closed: without a failure from the last phase, after its artifact was
announced, and else from any, after its failure. -/
def IsLife (m : String) : Option Failure → List Event → Prop
  | none, es => ∃ es', IsLifeTo m .afterHooks true es' ∧
      es = es' ++ [.moved m (.afterHooks, .closed), .closed m true]
  | some f, es => ∃ p announced es', p ≠ .closed ∧ IsLifeTo m p announced es' ∧
      es = es' ++ [.failed m f, .moved m (p, .closed), .closed m false]

/-- The module whose event it is is the one that observers are told of. -/
theorem eventsOf_eq_self {m : String} {es : List Event} (h : ∀ e ∈ es, e.observed? = some m) :
    eventsOf m es = es :=
  List.filter_eq_self.mpr fun e he => by simp [h e he]

namespace Trace

variable {m inner : String} {p : Phase} {announced : Bool} {failure : Option Failure}
  {es : List Event}

theorem ne_closed (h : Trace m (.inPhase p announced) es) : p ≠ .closed := by
  generalize hs : LifeStage.inPhase p announced = s at h
  induction h generalizing p announced with
  | opened => cases hs; nofun
  | nested _ _ _ ih => cases hs; exact ih rfl
  | advanced _ _ hq => cases hs; exact hq
  | available => cases hs; nofun
  | fulfilled | rejected => cases hs

/-- **The module's own events up to a phase.** -/
theorem isLifeTo (h : Trace m (.inPhase p announced) es) :
    IsLifeTo m p announced (eventsOf m es) := by
  generalize hs : LifeStage.inPhase p announced = s at h
  induction h generalizing p announced with
  | opened m l compiling =>
    cases hs
    exact ⟨l, compiling, eventsOf_eq_self (by simp [Event.observed?])⟩
  | nested _ _ hother ih =>
    cases hs
    rw [eventsOf_append, eventsOf_eq_nil hother, List.append_nil]
    exact ih rfl
  | @advanced m p q es h hnext _ ih =>
    cases hs
    obtain ⟨l, compiling, heq⟩ := ih rfl
    refine ⟨l, compiling, ?_⟩
    rw [eventsOf_append, heq, eventsOf_eq_self (by simp [Event.observed?]),
      Phase.route_of_next? hnext, List.map_append]
    rfl
  | available h id size ih =>
    cases hs
    obtain ⟨l, compiling, heq⟩ := ih rfl
    refine ⟨rfl, l, compiling, id, size, ?_⟩
    rw [eventsOf_append, heq, eventsOf_eq_self (by simp [Event.observed?])]
  | fulfilled | rejected => cases hs

/-- **The module's own events in a whole life.** -/
theorem isLife (h : Trace m (.ended failure) es) : IsLife m failure (eventsOf m es) := by
  cases h with
  | fulfilled h =>
    have hlast : eventsOf m [.moved m (.afterHooks, .closed), .closed m true]
        = [.moved m (.afterHooks, .closed), .closed m true] :=
      eventsOf_eq_self (by simp [Event.observed?])
    exact ⟨_, h.isLifeTo, by rw [eventsOf_append, hlast]⟩
  | @rejected _ p _ _ h f =>
    have hlast : eventsOf m [.failed m f, .moved m (p, .closed), .closed m false]
        = [.failed m f, .moved m (p, .closed), .closed m false] :=
      eventsOf_eq_self (by simp [Event.observed?])
    exact ⟨_, _, _, h.ne_closed, h.isLifeTo, by rw [eventsOf_append, hlast]⟩

/-- Modules may be compiled one after the other in a phase. -/
theorem nested_all {iss : List (List Event)} (h : Trace m (.inPhase p false) es)
    (hinner : ∀ is ∈ iss, (∃ inner failure, Trace inner (.ended failure) is) ∧
      ∀ e ∈ is, e.observed? ≠ some m) : Trace m (.inPhase p false) (es ++ iss.flatten) := by
  induction iss generalizing es with
  | nil =>
    rw [List.flatten_nil, List.append_nil]
    exact h
  | cons is rest ih =>
    obtain ⟨⟨inner, failure, hone⟩, hother⟩ := hinner is List.mem_cons_self
    rw [List.flatten_cons, ← List.append_assoc]
    exact ih (h.nested hone hother) fun is his => hinner is (List.mem_cons_of_mem _ his)

end Trace

/-! ## Code -/

/-- A trace of a module that was not open, and in which no open module is told of. -/
def IsTraceBeside (r : Registry) (es : List Event) : Prop :=
  (∃ m failure, Trace m (.ended failure) es) ∧
    ∀ e ∈ es, ∀ m, e.observed? = some m → r.opened.get? m = none

/-- What code under a ticket does that observers are told of: it compiles modules that are not
open, one after the other.  The phase of its own module stays. -/
structure World.Nests (t : Ticket) (w w' : World) : Prop where
  acted : Registry.ActedOn (some t) w.registry w'.registry
  phase : ∀ e, w.registry.find? t = some e →
    ∃ e', w'.registry.find? t = some e' ∧ e'.phase = e.phase
  told : ∃ ess : List (List Event), observed w'.log = observed w.log ++ ess.flatten ∧
    ∀ es ∈ ess, IsTraceBeside w.registry es

theorem observed_singleton {e : Event} (he : e.observed? = none) : observed [e] = [] := by
  simp [observed, he]

theorem ModuleState.Change.phase_eq {s s' : ModuleState} (h : s.Change s') :
    s'.phase = s.phase := by
  cases h <;> rfl

namespace World.Nests

variable {t : Ticket} {w w' w'' : World}

theorem of_quiet (hacted : Registry.ActedOn (some t) w.registry w'.registry)
    (hphase : ∀ e, w.registry.find? t = some e →
      ∃ e', w'.registry.find? t = some e' ∧ e'.phase = e.phase)
    (hlog : observed w'.log = observed w.log) : Nests t w w' :=
  ⟨hacted, hphase, [], by rw [List.flatten_nil, List.append_nil, hlog], nofun⟩

theorem refl (t : Ticket) (w : World) : Nests t w w :=
  of_quiet (.refl _ _) (fun e he => ⟨e, he, rfl⟩) rfl

theorem trans (h : Nests t w w') (h' : Nests t w' w'') : Nests t w w'' := by
  refine ⟨h.acted.trans h'.acted, fun e he => ?_, ?_⟩
  · obtain ⟨e₁, he₁, hphase₁⟩ := h.phase e he
    obtain ⟨e₂, he₂, hphase₂⟩ := h'.phase e₁ he₁
    exact ⟨e₂, he₂, hphase₂.trans hphase₁⟩
  · obtain ⟨ess, heq, hbeside⟩ := h.told
    obtain ⟨ess', heq', hbeside'⟩ := h'.told
    refine ⟨ess ++ ess', ?_, fun es hes => ?_⟩
    · rw [heq', heq, List.flatten_append, List.append_assoc]
    · rcases List.mem_append.mp hes with hes | hes
      · exact hbeside es hes
      · -- the same modules are open
        obtain ⟨htrace, hother⟩ := hbeside' es hes
        exact ⟨htrace, fun e he m hm => h.acted.opened ▸ hother e he m hm⟩

/-- An event that observers are not told of. -/
theorem log (w : World) {e : Event} (he : e.observed? = none) :
    Nests t w { w with log := w.log ++ [e] } :=
  of_quiet (.refl _ _) (fun e he => ⟨e, he, rfl⟩)
    (by rw [observed_append, observed_singleton he, List.append_nil])

end World.Nests

theorem codeConduct_nests (t : Ticket) : CodeConduct t (World.Nests t) where
  refl := .refl t
  trans := .trans
  note w _ he := .log w (Event.observed?_of_isOfCode he)
  change w e s he hchange := by
    refine .of_quiet (.update _ _ _) (fun e₁ he₁ => ?_) rfl
    obtain rfl : e = e₁ := Option.some.inj (he.symm.trans he₁)
    refine ⟨e.change fun _ => s, ?_, hchange.phase_eq⟩
    simp only [Registry.find?_update, if_true, he]
    rfl

/-! ## The pipeline -/

/-- From worlds that satisfy `pre` the run ends with a result, in a world that satisfies
`post`, or with a failure in one that satisfies `err`, unless it is exhausted. -/
def Run.Meets {α : Type} (pre : World → Prop) (r : Run α) (post : α → World → Prop)
    (err : World → Prop) : Prop :=
  ∀ w, pre w → match r w with
    | (.ok a, w') => post a w'
    | (.error (.failed _), w') => err w'
    | (.error .exhausted, _) => True

theorem Run.Meets.bind {α β : Type} {pre err : World → Prop} {mid : α → World → Prop}
    {post : β → World → Prop} {x : Run α} {f : α → Run β} (hx : Meets pre x mid err)
    (hf : ∀ a, Meets (mid a) (f a) post err) : Meets pre (x >>= f) post err := by
  intro w hw
  have hxw := hx w hw
  rw [bind_apply]
  rcases hrun : x w with ⟨(f' | _) | a, w'⟩
  · rw [hrun] at hxw
    exact hxw
  · trivial
  · rw [hrun] at hxw
    exact hf a w' hxw

/-- What stays within a conduct goes on from where the conduct has led. -/
theorem Run.Within.meets {α : Type} {R : World → World → Prop} {r : Run α} (h : Within R r)
    (hR : Conduct R) (w : World) : Meets (R w) r (fun _ => R w) (R w) := by
  intro w₁ hw₁
  have hr := h w₁
  rcases hrun : r w₁ with ⟨(f | _) | a, w₂⟩
  · rw [hrun] at hr
    exact hR.trans hw₁ (hr nofun)
  · trivial
  · rw [hrun] at hr
    exact hR.trans hw₁ (hr nofun)

theorem Run.Meets.pure {α : Type} {pre err : World → Prop} {post : α → World → Prop} {a : α}
    (h : ∀ w, pre w → post a w) : Meets pre (pure a) post err := h

theorem Run.Meets.fail {α : Type} {pre err : World → Prop} {post : α → World → Prop} {f : Failure}
    (h : ∀ w, pre w → err w) : Meets pre (fail f) post err := h

/-- The events tell of a module and of modules that are not open. -/
def TellsOf (m : String) (r : Registry) (es : List Event) : Prop :=
  ∀ e ∈ es, ∀ k, e.observed? = some k → k = m ∨ r.opened.get? k = none

theorem TellsOf.append {m : String} {r : Registry} {es es' : List Event} (h : TellsOf m r es)
    (h' : TellsOf m r es') : TellsOf m r (es ++ es') :=
  fun e he => (List.mem_append.mp he).elim (h e) (h' e)

theorem tellsOf_of_own {m : String} {r : Registry} {es : List Event}
    (h : ∀ e ∈ es, e.observed? = some m) : TellsOf m r es :=
  fun e he _ hk => .inl (Option.some.inj (hk.symm.trans (h e he)))

/-- The world is one in the life of an opened module that was opened in `w₁`: its module is in
a phase, and its artifact was announced or not. -/
structure Opening.InLife (o : Opening) (w₁ : World) (p : Phase) (announced : Bool) (w : World) :
    Prop where
  acted : Registry.ActedOn (some o.scope.ticket) w₁.registry w.registry
  entry : ∃ e, w.registry.find? o.scope.ticket = some e ∧ e.phase = p
  told : ∃ es, observed w.log = observed w₁.log ++ es ∧
    Trace o.scope.module (.inPhase p announced) es ∧ TellsOf o.scope.module w₁.registry es

namespace Opening.InLife

variable {o : Opening} {w₁ w w' : World} {p q : Phase} {announced : Bool}

/-- What changes neither the registry nor what observers are told. -/
theorem of_quiet (h : o.InLife w₁ p announced w) (hregistry : w'.registry = w.registry)
    (hlog : observed w'.log = observed w.log) : o.InLife w₁ p announced w' :=
  ⟨hregistry ▸ h.acted, hregistry ▸ h.entry, hlog ▸ h.told⟩

/-- Code runs within a phase. -/
theorem nests (hown : w₁.registry.opened.get? o.scope.module = some o.scope.ticket)
    (h : o.InLife w₁ p false w) (hnests : w.Nests o.scope.ticket w') :
    o.InLife w₁ p false w' := by
  obtain ⟨e, he, hphase⟩ := h.entry
  obtain ⟨e', he', hphase'⟩ := hnests.phase e he
  obtain ⟨es, heq, htrace, honly⟩ := h.told
  obtain ⟨ess, heq', hbeside⟩ := hnests.told
  have hopened : w.registry.opened = w₁.registry.opened := h.acted.opened
  refine ⟨h.acted.trans hnests.acted, ⟨e', he', hphase'.trans hphase⟩, es ++ ess.flatten, ?_, ?_,
    ?_⟩
  · rw [heq', heq, List.append_assoc]
  · refine htrace.nested_all fun is his => ⟨(hbeside is his).1, fun e he hm => ?_⟩
    -- the module itself is open, so it is not one that was nested
    have hclosed := (hbeside is his).2 e he _ hm
    rw [hopened, hown] at hclosed
    cases hclosed
  · refine honly.append fun e he m hm => ?_
    obtain ⟨is, his, he⟩ := List.mem_flatten.mp he
    exact .inr (hopened ▸ (hbeside is his).2 e he m hm)

/-- The pipeline tells of its own module. -/
theorem extend (h : o.InLife w₁ p announced w) {b : Bool}
    (hacted : Registry.ActedOn (some o.scope.ticket) w.registry w'.registry)
    (hentry : ∃ e, w'.registry.find? o.scope.ticket = some e ∧ e.phase = q) {e : Event}
    (he : e.observed? = some o.scope.module) (hlog : observed w'.log = observed w.log ++ [e])
    (htrace : ∀ es, Trace o.scope.module (.inPhase p announced) es →
      Trace o.scope.module (.inPhase q b) (es ++ [e])) : o.InLife w₁ q b w' := by
  obtain ⟨es, heq, hes, honly⟩ := h.told
  refine ⟨h.acted.trans hacted, hentry, es ++ [e], ?_, htrace es hes,
    honly.append (tellsOf_of_own ?_)⟩
  · rw [hlog, heq, List.append_assoc]
  · exact fun e' he' => List.mem_singleton.mp he' ▸ he

end Opening.InLife

/-- The world is one in the life of the opened module. -/
def Opening.Lives (o : Opening) (w₁ w : World) : Prop := ∃ p announced, o.InLife w₁ p announced w

namespace Engine

variable {g : Engine} {o : Opening} {w₁ : World} {p q : Phase} {announced : Bool} {α : Type}

theorem meets_quiet {r : Run α} (hregistry : ∀ w, (r w).2.registry = w.registry)
    (hlog : ∀ w, observed (r w).2.log = observed w.log) :
    Meets (o.InLife w₁ p announced) r (fun _ => o.InLife w₁ p announced) (o.Lives w₁) := by
  intro w hw
  have hquiet := hw.of_quiet (hregistry w) (hlog w)
  rcases hrun : r w with ⟨(f | _) | a, w'⟩
  · rw [hrun] at hquiet
    exact ⟨p, announced, hquiet⟩
  · trivial
  · rw [hrun] at hquiet
    exact hquiet

section Steps

variable (hown : w₁.registry.opened.get? o.scope.module = some o.scope.ticket)
include hown

theorem meets_code {r : Run α} (hr : Within (World.Nests o.scope.ticket) r) :
    Meets (o.InLife w₁ p false) r (fun _ => o.InLife w₁ p false) (o.Lives w₁) := by
  intro w hw
  have hnests := hr w
  rcases hrun : r w with ⟨(f | _) | a, w'⟩
  · rw [hrun] at hnests
    exact ⟨p, false, hw.nests hown (hnests nofun)⟩
  · trivial
  · rw [hrun] at hnests
    exact hw.nests hown (hnests nofun)

end Steps

section Returning

variable (hreports : g.host.ReportsReturn)
include hreports

theorem meets_advance (hnext : p.next? = some q) (hq : q ≠ .closed) :
    Meets (o.InLife w₁ p false) (g.advance o q) (fun _ => o.InLife w₁ q false) (o.Lives w₁) := by
  intro w hw
  obtain ⟨e, he, rfl⟩ := hw.entry
  have hmove : e.phase.advance o.scope.module q = .ok (e.phase, q) := by
    rw [Phase.advance, if_pos hnext]
  obtain ⟨extra, hextra, hrun⟩ := move_returns hreports o (e.phase, q) w
  have hadvance : g.advance o q w = g.move o (e.phase, q) w := by
    unfold advance
    rw [bind_apply, entry_apply, he]
    simp only [hmove]
    rfl
  rw [hadvance, hrun]
  refine hw.extend (e := .moved o.scope.module (e.phase, q)) (.update _ _ _) ?_ rfl ?_ fun es hes =>
    hes.advanced hnext hq
  · refine ⟨e.change fun s => { s with phase := q }, ?_, rfl⟩
    simp only [Registry.find?_update, if_true, he]
    rfl
  · simp only [observed_append, observed_of_warnings hextra, List.append_nil]
    rfl

/-- **The pipeline takes the trace to the hooks after compilation.** -/
theorem meets_prepare {evaluate : EvaluateBody}
    (hown : w₁.registry.opened.get? o.scope.module = some o.scope.ticket)
    (hfire : g.FiresWithin o.scope (World.Nests o.scope.ticket))
    (hevaluate : ∀ env, Within (World.Nests o.scope.ticket) (evaluate env o.scope)) :
    Meets (o.InLife w₁ .evaluating false) (g.prepare o evaluate)
      (fun _ => o.InLife w₁ .afterHooks false) (o.Lives w₁) := by
  have hR := codeConduct_nests o.scope.ticket
  have hP := hR.scopeLaw
  have hwarned (m : String) (d : Diagnostic) : within (World.Nests o.scope.ticket)
      (Run.warn g.host m d) (Run.warn g.host m d) := by
    intro w _
    rw [warn_returns hreports]
    exact .log w rfl
  have hwarnings (m : String) (ds : List Diagnostic) :
      Within (World.Nests o.scope.ticket) (ds.forM (Run.warn g.host m)) :=
    hP.list_forM (hwarned m) ds
  have hafter (env : CompileEnv) (a : Artifact) : within (World.Nests o.scope.ticket)
      (g.runAfterCompile o.scope env a) (g.runAfterCompile o.scope env a) :=
    related_runAfterCompile hP hfire env a
  have hbefore (env : CompileEnv) : within (World.Nests o.scope.ticket)
      (g.runBeforeCompile o.scope env) (g.runBeforeCompile o.scope env) :=
    related_runBeforeCompile hP hfire env
  refine .bind (meets_code hown (hevaluate _)) fun ⟨value, env⟩ => ?_
  refine .bind (meets_advance hreports rfl nofun) fun _ => ?_
  refine .bind (meets_code hown (hbefore env)) fun env => ?_
  refine .bind (meets_advance hreports rfl nofun) fun _ => ?_
  refine .bind (meets_code hown
    (related_assemble (g := g) hP.toCongruence hP.recordLocal)) fun m => ?_
  refine .bind (meets_code hown (hwarnings _ m.warnings)) fun _ => ?_
  refine .bind (meets_advance hreports rfl nofun) fun _ => ?_
  refine .bind (meets_code hown (related_build (g := g) hP.toCongruence m)) fun a => ?_
  refine .bind (meets_advance hreports rfl nofun) fun _ => ?_
  refine .bind (meets_code hown (hafter env a)) fun _ => ?_
  exact .pure fun _ hw => hw

/-- **Handing the artifact over announces it.** -/
theorem meets_handOver (value : FormResult) (m : Assembly) (a : Artifact) :
    Meets (o.InLife w₁ .afterHooks false) (g.handOver o value m a)
      (fun _ => o.InLife w₁ .afterHooks true) (o.Lives w₁) := by
  have hsilent {β : Type} {b : Bool} {e : Event} (answer : List Event → β)
      (he : e.observed? = none) :
      Meets (o.InLife w₁ .afterHooks b) (emit e answer) (fun _ => o.InLife w₁ .afterHooks b)
        (o.Lives w₁) :=
    meets_quiet (fun _ => rfl) fun w => by
      rw [emit_apply, observed_append, observed_singleton he, List.append_nil]
  have hlives {b : Bool} : ∀ w, o.InLife w₁ .afterHooks b w → o.Lives w₁ w := fun w hw => ⟨_, b, hw⟩
  have hannounce (id : String) : Meets (o.InLife w₁ .afterHooks false)
      (Run.notify g.host "onModuleAvailable" o.scope.module o.location
        (.available o.scope.module id a.size))
      (fun _ => o.InLife w₁ .afterHooks true) (o.Lives w₁) := by
    intro w hw
    obtain ⟨extra, hextra, hrun⟩ := notify_returns hreports "onModuleAvailable" o.scope.module
      o.location (.available o.scope.module id a.size) w
    rw [hrun]
    refine hw.extend (.refl _ _) hw.entry (e := .available o.scope.module id a.size) rfl ?_
      fun es hes => hes.available id a.size
    simp only [observed_append, observed_of_warnings hextra, List.append_nil]
    rfl
  have hproduce : Meets (o.InLife w₁ .afterHooks false) (g.produce o a)
      (fun _ => o.InLife w₁ .afterHooks true) (o.Lives w₁) := by
    refine .bind (meets_quiet (fun _ => rfl) fun _ => rfl) fun _ => ?_
    refine .bind (meets_quiet (fun _ => rfl) fun _ => rfl) fun w => ?_
    cases g.host.listener with
    | none => exact hannounce _
    | some listener =>
      refine .bind (hsilent listener rfl) fun answer => ?_
      cases answer with
      | none => exact hannounce _
      | some f => exact .bind (.fail hlives) fun _ => hannounce _
  have hload : Meets (o.InLife w₁ .afterHooks true) (g.load o a)
      (fun _ => o.InLife w₁ .afterHooks true) (o.Lives w₁) := by
    unfold load
    cases g.host.loader with
    | none =>
      exact .bind (meets_quiet (fun _ => rfl) fun _ => rfl) fun _ => .pure fun _ hw => hw
    | some loader =>
      refine .bind (meets_quiet (fun _ => rfl) fun _ => rfl) fun w => ?_
      refine .bind (hsilent loader rfl) fun answer => ?_
      rcases answer with f | reason | origin
      · exact .fail hlives
      · exact .fail hlives
      · exact .pure fun _ hw => hw
  exact .bind hproduce fun _ => .bind hload fun _ => .pure fun _ hw => hw

/-- **From its opening a module lives**, and if nothing fails it lives to the last phase. -/
theorem meets_live {evaluate : EvaluateBody} {e : ModuleEntry}
    (hown : w₁.registry.opened.get? o.scope.module = some o.scope.ticket)
    (he : w₁.registry.find? o.scope.ticket = some e) (hphase : e.phase = .evaluating)
    (hfire : g.FiresWithin o.scope (World.Nests o.scope.ticket))
    (hevaluate : ∀ env, Within (World.Nests o.scope.ticket) (evaluate env o.scope)) :
    Meets (fun w => w = w₁) (g.live o evaluate) (fun _ => o.InLife w₁ .afterHooks true)
      (o.Lives w₁) := by
  have hopened : Meets (fun w => w = w₁) (Run.notify g.host "onModuleOpen" o.scope.module o.location
        (.opened o.scope.module o.location o.scope.env.compiling))
      (fun _ => o.InLife w₁ .evaluating false) (o.Lives w₁) := by
    rintro w rfl
    obtain ⟨extra, hextra, hrun⟩ := notify_returns hreports "onModuleOpen" o.scope.module o.location
      (.opened o.scope.module o.location o.scope.env.compiling) w
    rw [hrun]
    refine ⟨.refl _ _, ⟨e, he, hphase⟩, _, ?_, .opened o.scope.module o.location
      o.scope.env.compiling, tellsOf_of_own (by simp [Event.observed?])⟩
    simp only [observed_append, observed_of_warnings hextra, List.append_nil]
    rfl
  rw [live, compileOpened_eq]
  refine .bind hopened fun _ => ?_
  refine .bind (meets_prepare hreports hown hfire hevaluate) fun answer => ?_
  obtain ⟨value, m, a⟩ := answer
  exact meets_handOver hreports value m a

/-! ## From opening to closing -/

omit hreports in
theorem closingEvents_of_ne {m : String} (hp : p ≠ .closed) (fulfilled : Bool) :
    closingEvents m p fulfilled = [.moved m (p, .closed), .closed m fulfilled] := by
  rw [closingEvents, Phase.close?, if_neg hp]
  rfl

/-- **A module that was opened leaves a complete trace**, with the failure that its compilation
ends with. -/
theorem trace_of_finish {evaluate : EvaluateBody} {e : ModuleEntry} {w' : World}
    {outcome : Except Failure CompiledModule}
    (hown : w₁.registry.opened.get? o.scope.module = some o.scope.ticket)
    (he : w₁.registry.find? o.scope.ticket = some e) (hphase : e.phase = .evaluating)
    (hfire : g.FiresWithin o.scope (World.Nests o.scope.ticket))
    (hevaluate : ∀ env, Within (World.Nests o.scope.ticket) (evaluate env o.scope))
    (hsettles : (g.finish o evaluate).SettlesAs w₁ outcome w') :
    ∃ es, observed w'.log = observed w₁.log ++ es ∧
      Trace o.scope.module (.ended (failureOf outcome)) es ∧
      TellsOf o.scope.module w₁.registry es := by
  have hmeets := meets_live hreports hown he hphase hfire hevaluate w₁ rfl
  rcases hlive : g.live o evaluate w₁ with ⟨(f | _) | c, w₂⟩
  · rw [hlive] at hmeets
    obtain ⟨p, announced, hw₂⟩ := hmeets
    obtain ⟨e₂, he₂, rfl⟩ := hw₂.entry
    obtain ⟨es, heq, htrace, honly⟩ := hw₂.told
    obtain ⟨r, events, hrun, -, hevents⟩ := finish_of_error hreports hlive he₂
    obtain ⟨rfl, rfl⟩ := hsettles.of_error hrun
    rw [closingEvents_of_ne htrace.ne_closed] at hevents
    refine ⟨es ++ observed events, ?_, ?_, honly.append (tellsOf_of_own ?_)⟩
    · rw [observed_append, heq, List.append_assoc]
    · rw [hevents]
      exact htrace.rejected _
    · simp [hevents, Event.observed?]
  · rw [SettlesAs, finish_of_exhausted hlive] at hsettles
    cases outcome <;> cases hsettles
  · rw [hlive] at hmeets
    obtain ⟨e₂, he₂, hphase₂⟩ := hmeets.entry
    obtain ⟨es, heq, htrace, honly⟩ := hmeets.told
    obtain ⟨r, events, hrun, -, hevents⟩ := finish_of_ok hreports hlive he₂
    obtain ⟨rfl, rfl⟩ := hsettles.of_ok hrun
    rw [hphase₂, closingEvents_of_ne htrace.ne_closed] at hevents
    refine ⟨es ++ observed events, ?_, ?_, honly.append (tellsOf_of_own ?_)⟩
    · rw [observed_append, heq, List.append_assoc]
    · rw [hevents]
      exact htrace.fulfilled
    · simp [hevents, Event.observed?]

/-- What observers are told of a compilation: nothing if its module was not opened, which is
then what it fails with, and else one complete trace. -/
def Told (g : Engine) (name : String) (env : CompileEnv) (w : World)
    (outcome : Except Failure CompiledModule) (w' : World) : Prop :=
  (∃ f w₁, g.openModule name env w = (.error (.failed f), w₁) ∧ outcome = .error f ∧
    observed w'.log = observed w.log) ∨
  ∃ o w₁ es, g.openModule name env w = (.ok o, w₁) ∧
    observed w'.log = observed w.log ++ es ∧ Trace name (.ended (failureOf outcome)) es ∧
    ∀ e ∈ es, ∀ m, e.observed? = some m → w.registry.opened.get? m = none

/-- **What observers are told of a compilation.** -/
theorem trace_of_compile {evaluate : EvaluateBody} {name : String} {env : CompileEnv} {w w' : World}
    {outcome : Except Failure CompiledModule}
    (hfire : ∀ scope, g.FiresWithin scope (World.Nests scope.ticket))
    (hevaluate : ∀ env scope, Within (World.Nests scope.ticket) (evaluate env scope))
    (hsettles : (g.compile name env evaluate).SettlesAs w outcome w') :
    g.Told name env w outcome w' := by
  rw [SettlesAs, compile, bind_apply] at hsettles
  rcases openModule_cases g name env w with ⟨f, ds, hopen, -⟩ | ⟨hname, hopen⟩
  · rw [hopen] at hsettles
    obtain ⟨houtcome, rfl⟩ := Prod.mk.inj hsettles
    refine .inl ⟨f, _, hopen, ?_, ?_⟩
    · cases outcome <;> cases houtcome
      rfl
    · rw [observed_append, observed_warned, List.append_nil]
  · rw [hopen] at hsettles
    let o := g.opening name env w
    let w₁ : World := { w with
      registry := w.registry.add (g.newEntry name env w)
      log := w.log ++ o.warnings.map (.warned name) }
    have hown : w₁.registry.opened.get? name = some o.scope.ticket :=
      g.get?_opened_opening name env w
    have hentry : w₁.registry.find? o.scope.ticket = some (g.newEntry name env w) :=
      g.find?_opening name env w
    obtain ⟨es, heq, htrace, honly⟩ := trace_of_finish hreports (o := o) hown hentry rfl
      (hfire _) (fun env => hevaluate env _) hsettles
    refine .inr ⟨o, w₁, es, hopen, ?_, htrace, fun e he m hm => ?_⟩
    · rw [heq]
      simp only [w₁, observed_append, observed_warned, List.append_nil]
    · rcases honly e he m hm with rfl | hclosed
      · exact hname
      · simp only [w₁, Registry.opened_add, OrderedMap.get?_insert] at hclosed
        split at hclosed
        · cases hclosed
        · exact hclosed

end Returning

end Engine
end ModuleBuild
