import ModuleBuild.Proofs.Compile.Settling

/-! # Runs that agree up to a point

Two runs agree as long as nothing has happened that they may take differently: in every world
that is *ready* the second ends as the first does, and leaves a world that is ready again
(`agreeing`).  Here the point is that an open module enters the hooks after compilation
(`World.Before`).  Whatever else is compiled meanwhile has another name, so it cannot be what
brings the module there (`agreeing_compile`).
-/
namespace ModuleBuild

namespace Run

variable {α β : Type} {ready : World → Prop}

/-- What is ready stays ready. -/
def keeps (ready : World → Prop) (w w' : World) : Prop := ready w → ready w'

theorem conduct_keeps : Conduct (keeps ready) where
  refl _ h := h
  trans h₁ h₂ h := h₂ (h₁ h)

/-- In every world that is ready the second run ends as the first one does, and the world it
leaves is ready if it settles. -/
def agreeing (ready : World → Prop) : RunRelation := fun _ r r' =>
  ∀ w, ready w → r' w = r w ∧ ((r w).1 ≠ .error .exhausted → ready (r w).2)

theorem agreeing_of_within {r : Run α} (h : Within (keeps ready) r) : agreeing ready r r :=
  fun w hw => ⟨rfl, fun hsettles => h w hsettles hw⟩

theorem agreeing_bind {x x' : Run α} {f f' : α → Run β} (hx : agreeing ready x x')
    (hf : ∀ a, agreeing ready (f a) (f' a)) : agreeing ready (x >>= f) (x' >>= f') := by
  intro w hw
  obtain ⟨heq, hready⟩ := hx w hw
  rw [bind_apply, bind_apply, heq]
  rcases hrun : x w with ⟨e | a, w'⟩
  · rw [hrun] at hready
    exact ⟨rfl, fun hne => hready fun h => hne (by cases h; rfl)⟩
  · -- the second part starts in a world that is ready
    rw [hrun] at hready
    exact hf a w' (hready nofun)

theorem agreeing_attempt {r r' : Run α} (h : agreeing ready r r') :
    agreeing ready (attempt r) (attempt r') := by
  intro w hw
  obtain ⟨heq, hready⟩ := h w hw
  unfold attempt
  rw [heq]
  rcases hrun : r w with ⟨(f | _) | a, w'⟩
  · rw [hrun] at hready
    exact ⟨rfl, fun _ => hready nofun⟩
  · exact ⟨rfl, fun hne => (hne rfl).elim⟩
  · rw [hrun] at hready
    exact ⟨rfl, fun _ => hready nofun⟩

theorem congruence_agreeing : (agreeing ready).Congruence where
  pure a := agreeing_of_within (within_pure conduct_keeps a)
  fail f := agreeing_of_within (within_fail conduct_keeps f)
  get := agreeing_of_within (within_get conduct_keeps)
  bind := agreeing_bind
  attempt := agreeing_attempt

theorem scopeLaw_agreeing {scope : ModuleScope} (hR : CodeConduct scope.ticket (keeps ready)) :
    ScopeLaw scope (agreeing ready) where
  toCongruence := congruence_agreeing
  record e he := agreeing_of_within (hR.scopeLaw.record e he)
  changeAttributes f := agreeing_of_within (hR.scopeLaw.changeAttributes f)
  changeDocs f := agreeing_of_within (hR.scopeLaw.changeDocs f)
  recordLocal p := agreeing_of_within (hR.scopeLaw.recordLocal p)

/-- Definitions agree if the hooks that they call do. -/
theorem agreeing_define {g g' : Engine} {scope : ModuleScope}
    (hR : CodeConduct scope.ticket (keeps ready)) (n : Engine.NewDefinition)
    (hhooks : ∀ env d, agreeing ready (g.runOnDefinition scope env d)
      (g'.runOnDefinition scope env d)) :
    agreeing ready (g.define scope n) (g'.define scope n) := by
  intro w hw
  rw [Engine.define_eq, Engine.define_eq]
  cases haccept : n.accept scope w with
  | error f => exact ⟨rfl, fun _ => hw⟩
  | ok answer =>
    obtain ⟨d, isNew, w₁⟩ := answer
    obtain ⟨e, ds, he, hphase, hds, rfl⟩ := Engine.NewDefinition.accept_eq_ok haccept
    let taken : World := { w with
      registry := w.registry.update scope.ticket fun s => { s with definitions := ds } }
    have htaken : ready taken := by
      have hchange : keeps ready w taken := by
        show keeps ready w { w with registry := w.registry.update scope.ticket _ }
        rw [Registry.update_of_find? he]
        exact hR.change w e _ he (.define hphase hds)
      exact hchange hw
    cases isNew with
    | false => exact ⟨rfl, fun _ => htaken⟩
    | true =>
      have hannounce : agreeing ready (g.announce scope n d true) (g'.announce scope n d true) :=
        agreeing_bind (hhooks _ d) fun _ => congruence_agreeing.pure (d, true)
      exact hannounce taken htaken

end Run

/-! ## Before the hooks after compilation -/

/-- The event says that a module with the name enters the hooks after compilation. -/
def Event.entersAfterHooks (name : String) (e : Event) : Prop :=
  ∃ p, e = .moved name (p, .afterHooks)

theorem Event.not_entersAfterHooks_of_not_isTurning {name : String} {e : Event}
    (h : e.isTurning = false) : ¬ e.entersAfterHooks name := by
  rintro ⟨p, rfl⟩
  cases h

/-- Warnings do not say so. -/
theorem Event.not_entersAfterHooks_of_warned (m name : String) (ds : List Diagnostic) :
    ∀ e ∈ ds.map (Event.warned m), ¬ e.entersAfterHooks name := by
  intro e he
  obtain ⟨d, -, rfl⟩ := List.mem_map.mp he
  rintro ⟨p, hp⟩
  cases hp

/-- The module open under a ticket has not yet entered the hooks after compilation: no event
since the start of the log says so. -/
structure World.Before (start : List Event) (name : String) (t : Ticket) (w : World) : Prop where
  opened : w.registry.opened.get? name = some t
  log : ∃ events, w.log = start ++ events ∧ ∀ e ∈ events, ¬ e.entersAfterHooks name

namespace World.Before

variable {start : List Event} {name : String} {t : Ticket} {w : World}

theorem emit (h : w.Before start name t) {e : Event} (he : ¬ e.entersAfterHooks name) :
    World.Before start name t { w with log := w.log ++ [e] } := by
  obtain ⟨events, hlog, hevents⟩ := h.log
  refine ⟨h.opened, events ++ [e], ?_, ?_⟩
  · show w.log ++ [e] = _
    rw [hlog, List.append_assoc]
  · intro e' he'
    rcases List.mem_append.mp he' with he' | he'
    · exact hevents e' he'
    · rwa [List.mem_singleton.mp he']

theorem emitAll (h : w.Before start name t) {es : List Event}
    (hes : ∀ e ∈ es, ¬ e.entersAfterHooks name) :
    World.Before start name t { w with log := w.log ++ es } := by
  obtain ⟨events, hlog, hevents⟩ := h.log
  refine ⟨h.opened, events ++ es, ?_, ?_⟩
  · show w.log ++ es = _
    rw [hlog, List.append_assoc]
  · intro e' he'
    rcases List.mem_append.mp he' with he' | he'
    · exact hevents e' he'
    · exact hes e' he'

end World.Before

open Run

variable {start : List Event} {name : String} {t : Ticket}

theorem codeConduct_before (u : Ticket) : CodeConduct u (keeps (World.Before start name t)) where
  toConduct := conduct_keeps
  note _ _ he hw :=
    hw.emit (Event.not_entersAfterHooks_of_not_isTurning (Event.isTurning_of_isOfCode he))
  change w e s _ _ hw := by
    refine ⟨?_, hw.log⟩
    rw [Registry.opened_update]
    exact hw.opened

theorem within_emit_before {α : Type} {e : Event} (he : ¬ e.entersAfterHooks name)
    (answer : List Event → α) : Within (keeps (World.Before start name t)) (emit e answer) :=
  fun _ _ hw => hw.emit he

theorem notifyingLaw_before : NotifyingLaw (within (keeps (World.Before start name t))) where
  toCongruence := congruence_within conduct_keeps
  emit _ answer he := within_emit_before (Event.not_entersAfterHooks_of_not_isTurning he) answer

theorem notifyingLaw_agreeing : NotifyingLaw (agreeing (World.Before start name t)) where
  toCongruence := congruence_agreeing
  emit e answer he := agreeing_of_within (notifyingLaw_before.emit e answer he)

theorem scopeLaw_before (scope : ModuleScope) :
    ScopeLaw scope (agreeing (World.Before start name t)) :=
  scopeLaw_agreeing (codeConduct_before _)

namespace Engine

variable {g g' : Engine} {o : Opening}

theorem within_move_before {m : Phase.Move}
    (hm : o.scope.module ≠ name ∨ m.2 ≠ .afterHooks) :
    Within (keeps (World.Before start name t)) (g.move o m) := by
  have hevent : ¬ (Event.moved o.scope.module m).entersAfterHooks name := by
    rintro ⟨p, hp⟩
    cases hp
    rcases hm with hname | hphase
    · exact hname rfl
    · exact hphase rfl
  refine within_bind conduct_keeps (within_modify fun w hw => ⟨?_, hw.log⟩) fun _ => ?_
  · rw [Registry.opened_update]
    exact hw.opened
  · exact notifyingLaw_before.notify_of _ _ _ _ (within_emit_before hevent _)

/-- Other modules go on freely, and the module itself to every other phase. -/
theorem within_advance_before {target : Phase}
    (h : o.scope.module ≠ name ∨ target ≠ .afterHooks) :
    Within (keeps (World.Before start name t)) (g.advance o target) := by
  intro w
  unfold advance
  rw [bind_apply, entry_apply]
  cases w.registry.find? o.scope.ticket with
  | none => exact fun _ hw => hw
  | some e =>
    simp only [bind_apply]
    cases hadvance : e.phase.advance o.scope.module target with
    | error c => exact fun _ hw => hw
    | ok m =>
      have htarget : m.2 = target := Phase.target_of_advance hadvance
      exact within_move_before (htarget ▸ h) w

theorem within_closeModule_before (hname : o.scope.module ≠ name) (ht : o.scope.ticket ≠ t)
    (fulfilled : Bool) :
    Within (keeps (World.Before start name t)) (g.closeModule o fulfilled) := by
  have hP : (within (keeps (World.Before start name t))).Congruence :=
    congruence_within conduct_keeps
  have hevent : ¬ (Event.closed o.scope.module fulfilled).entersAfterHooks name := by
    rintro ⟨p, hp⟩
    cases hp
  have hlast : Within (keeps (World.Before start name t)) (do
      modify fun w : World => { w with registry := w.registry.close o.scope.ticket }
      Run.notify g.host "onModuleClose" o.scope.module o.location
        (.closed o.scope.module fulfilled) : Run Unit) := by
    refine within_bind conduct_keeps (within_modify fun w hw => ⟨?_, hw.log⟩) fun _ => ?_
    · rw [Registry.get?_opened_close]
      exact ⟨hw.opened, ht.symm⟩
    · exact notifyingLaw_before.notify_of _ _ _ _ (within_emit_before hevent _)
  refine within_bind conduct_keeps (hP.entry _ :) fun e => ?_
  cases e.phase.close? with
  | none => exact hlast
  | some m => exact within_bind conduct_keeps (within_move_before (.inl hname)) fun _ => hlast

/-- **The life of another module** goes on alike in both runs. -/
theorem openingLaw_agreeing (g : Engine) {o : Opening} (hname : o.scope.module ≠ name) :
    OpeningLaw g o (agreeing (World.Before start name t)) where
  toScopeLaw := scopeLaw_before o.scope
  emit := notifyingLaw_agreeing.emit
  advance _ := agreeing_of_within (within_advance_before (.inl hname))
  recordArtifact _ := agreeing_of_within (within_modify fun _ hw => ⟨hw.opened, hw.log⟩)
  register _ := agreeing_of_within (within_modify fun _ hw => ⟨hw.opened, hw.log⟩)

section Compile

variable (hhost : g'.host = g.host)
  (hfire : ∀ scope : ModuleScope, g.FiresRelated g' scope (agreeing (World.Before start name t)))
  {evaluate evaluate' : EvaluateBody}
  (hevaluate : ∀ env scope, agreeing (World.Before start name t)
    (evaluate env scope) (evaluate' env scope))
include hhost hfire hevaluate

theorem agreeing_finish (hname : o.scope.module ≠ name) (ht : o.scope.ticket ≠ t) :
    agreeing (World.Before start name t) (g.finish o evaluate) (g'.finish o evaluate') := by
  have hlive := related_live (openingLaw_agreeing g hname) hhost (hfire o.scope)
    fun env => hevaluate env o.scope
  have hconclude (outcome : Except Failure CompiledModule) :
      agreeing (World.Before start name t) (g.conclude o outcome) (g.conclude o outcome) :=
    related_conclude (openingLaw_agreeing g hname)
      (fun fulfilled => agreeing_of_within (within_closeModule_before hname ht fulfilled)) outcome
  rw [finish_eq, finish_eq, conclude_congr hhost o]
  exact agreeing_bind (agreeing_attempt hlive) hconclude

/-- **Compiling another module agrees**, since the name of the open one is taken. -/
theorem agreeing_compile (other : String) (env : CompileEnv) :
    agreeing (World.Before start name t) (g.compile other env evaluate)
      (g'.compile other env evaluate') := by
  intro w hw
  unfold compile
  rw [bind_apply, bind_apply, openModule_congr hhost]
  rcases openModule_cases g other env w with ⟨f, ds, hopen, -⟩ | ⟨hunopened, hopen⟩
  · rw [hopen]
    exact ⟨rfl, fun _ => hw.emitAll (Event.not_entersAfterHooks_of_warned other name ds)⟩
  · rw [hopen]
    have hname : other ≠ name := by
      rintro rfl
      rw [hw.opened] at hunopened
      cases hunopened
    have hlt : t < w.registry.entries.length := Registry.lt_length_of_opened hw.opened
    have hopened : World.Before start name t
        { w with
          registry := w.registry.add (g.newEntry other env w)
          log := w.log ++ (g.opening other env w).warnings.map (.warned other) } := by
      refine ⟨?_, (hw.emitAll (Event.not_entersAfterHooks_of_warned other name _)).log⟩
      have hmodule : (g.newEntry other env w).module ≠ name := hname
      rw [Registry.opened_add, OrderedMap.get?_insert, if_neg hmodule]
      exact hw.opened
    have hticket : (g.opening other env w).scope.ticket ≠ t := Nat.ne_of_gt hlt
    exact agreeing_finish hhost hfire hevaluate hname hticket _ hopened

end Compile

end Engine
end ModuleBuild
