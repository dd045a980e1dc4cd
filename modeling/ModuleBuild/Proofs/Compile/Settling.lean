import ModuleBuild.Proofs.Compile.Teardown

/-! # Runs that settle

A run settles if it ends with a result or a failure: it is not exhausted.  What an engine
does by itself always settles (`openingLaw_settles`); only the calls of hooks can be
exhausted.  They are not if they are called in worlds that are *ready* for them, and then
nothing changes if the calls may go deeper (`settling`).
-/
namespace ModuleBuild

namespace Run

variable {α β : Type}

/-- The run settles in every world. -/
def Settles (r : Run α) : Prop := ∀ w, (r w).1 ≠ .error .exhausted

/-- That a run settles, as a relation of runs. -/
def settles : RunRelation := fun _ r _ => Settles r

theorem settles_modify (f : World → World) : Settles (modify f : Run Unit) := fun _ => nofun

theorem settles_emit (e : Event) (answer : List Event → α) : Settles (emit e answer) :=
  fun _ => nofun

theorem congruence_settles : settles.Congruence where
  pure _ := fun _ => nofun
  fail _ := fun _ => nofun
  get := fun _ => nofun
  bind {_ _ x _ f _} hx hf := fun w => by
    rw [bind_apply]
    have hxw := hx w
    rcases hrun : x w with ⟨e | a, w'⟩
    · rw [hrun] at hxw
      exact fun h => hxw (by cases h; rfl)
    · exact hf a w'
  attempt {_ r _} hr := fun w => by
    have hw := hr w
    unfold attempt
    rcases hrun : r w with ⟨(f | _) | a, w'⟩
    · exact nofun
    · rw [hrun] at hw
      exact (hw rfl).elim
    · exact nofun

theorem notifyingLaw_settles : NotifyingLaw settles where
  toCongruence := congruence_settles
  emit e answer _ := settles_emit e answer

theorem settles_notify (host : Host) (callback m : String) (l : Location) (e : Event) :
    Settles (notify host callback m l e) := by
  change settles (notify host callback m l e) (notify host callback m l e)
  exact notifyingLaw_settles.notify_of host callback m l (settles_emit e _)

end Run

namespace Engine

open Run

variable (g : Engine) (o : Opening)

theorem settles_move (m : Phase.Move) : Settles (g.move o m) := by
  change settles (g.move o m) (g.move o m)
  exact congruence_settles.bind (settles_modify _) fun _ => settles_notify _ _ _ _ _

theorem scopeLaw_settles (scope : ModuleScope) : ScopeLaw scope settles where
  toCongruence := congruence_settles
  record _ _ := settles_emit _ _
  changeAttributes f := by
    have hP := congruence_settles
    exact hP.bind (hP.entry _) fun _ => hP.bind (hP.ofCondition _) fun _ => settles_modify _
  changeDocs f := settles_modify _
  recordLocal p := by
    have hP := congruence_settles
    exact hP.bind (hP.entry _) fun _ => hP.bind (hP.ofCondition _) fun _ => settles_modify _

/-- **What an engine does by itself settles.** -/
theorem openingLaw_settles : OpeningLaw g o settles where
  toScopeLaw := scopeLaw_settles o.scope
  emit := notifyingLaw_settles.emit
  advance target := by
    have hP := congruence_settles
    exact hP.bind (hP.entry _) fun _ => hP.bind (hP.ofCondition _) fun m => settles_move g o m
  recordArtifact _ := settles_modify _
  register _ := settles_modify _

theorem settles_closeModule (fulfilled : Bool) : Settles (g.closeModule o fulfilled) := by
  have hP := congruence_settles
  change settles (g.closeModule o fulfilled) (g.closeModule o fulfilled)
  refine hP.bind (hP.entry _) fun e => ?_
  cases e.phase.close? with
  | none => exact hP.bind (settles_modify _) fun _ => settles_notify _ _ _ _ _
  | some m =>
    refine hP.bind (settles_move g o m) fun _ => ?_
    exact hP.bind (settles_modify _) fun _ => settles_notify _ _ _ _ _

end Engine

namespace Run

variable {α β : Type} {ready : World → Prop} {R : World → World → Prop}

/-- In every world that is ready, the first run settles within a relation of worlds, and the
second one ends in the same way. -/
def settling (ready : World → Prop) (R : World → World → Prop) : RunRelation := fun _ r r' =>
  ∀ w, ready w → (r w).1 ≠ .error .exhausted ∧ R w (r w).2 ∧ r' w = r w

/-- What settles in more worlds does so in fewer, and within a larger relation. -/
theorem settling_mono {ready' : World → Prop} {S : World → World → Prop} {r r' : Run α}
    (h : settling ready R r r') (hready : ∀ w, ready' w → ready w) (hRS : ∀ w w', R w w' → S w w') :
    settling ready' S r r' := by
  intro w hw
  obtain ⟨hsettles, hwithin, heq⟩ := h w (hready w hw)
  exact ⟨hsettles, hRS _ _ hwithin, heq⟩

theorem settling_of_within {r : Run α} (hwithin : Within R r) (hsettles : Settles r) :
    settling ready R r r :=
  fun w _ => ⟨hsettles w, hwithin w (hsettles w), rfl⟩

theorem settling_attempt {r r' : Run α} (h : settling ready R r r') :
    settling ready R (attempt r) (attempt r') := by
  intro w hw
  obtain ⟨hsettles, hwithin, heq⟩ := h w hw
  unfold attempt
  rw [heq]
  rcases hrun : r w with ⟨(f | _) | a, w'⟩
  · rw [hrun] at hwithin
    exact ⟨nofun, hwithin, rfl⟩
  · rw [hrun] at hsettles
    exact (hsettles rfl).elim
  · rw [hrun] at hwithin
    exact ⟨nofun, hwithin, rfl⟩

section Conduct

variable (hR : Conduct R)
include hR

/-- What goes on from a run goes on in a world that is ready for it. -/
theorem settling_bind {ready' : World → Prop} {x x' : Run α} {f f' : α → Run β}
    (hx : settling ready R x x') (hf : ∀ a, settling ready' R (f a) (f' a))
    (hready : ∀ w w', ready w → R w w' → ready' w') :
    settling ready R (x >>= f) (x' >>= f') := by
  intro w hw
  obtain ⟨hsettles, hwithin, heq⟩ := hx w hw
  rw [bind_apply, bind_apply, heq]
  rcases hrun : x w with ⟨e | a, w'⟩
  · rw [hrun] at hsettles hwithin
    exact ⟨fun h => hsettles (by cases h; rfl), hwithin, rfl⟩
  · rw [hrun] at hwithin
    obtain ⟨hsettles', hwithin', heq'⟩ := hf a w' (hready w w' hw hwithin)
    exact ⟨hsettles', hR.trans hwithin hwithin', heq'⟩

theorem congruence_settling (hready : ∀ w w', ready w → R w w' → ready w') :
    (settling ready R).Congruence where
  pure a := settling_of_within (within_pure hR a) (congruence_settles.pure a)
  fail f := settling_of_within (within_fail hR f) (congruence_settles.fail f)
  get := settling_of_within (within_get hR) congruence_settles.get
  bind hx hf := settling_bind hR hx hf hready
  attempt := settling_attempt

end Conduct

theorem scopeLaw_settling {scope : ModuleScope} (hR : CodeConduct scope.ticket R)
    (hready : ∀ w w', ready w → R w w' → ready w') : ScopeLaw scope (settling ready R) where
  toCongruence := congruence_settling hR.toConduct hready
  record e he :=
    settling_of_within (hR.scopeLaw.record e he) ((Engine.scopeLaw_settles scope).record e he)
  changeAttributes f := settling_of_within (hR.scopeLaw.changeAttributes f)
    ((Engine.scopeLaw_settles scope).changeAttributes f)
  changeDocs f :=
    settling_of_within (hR.scopeLaw.changeDocs f) ((Engine.scopeLaw_settles scope).changeDocs f)
  recordLocal p :=
    settling_of_within (hR.scopeLaw.recordLocal p) ((Engine.scopeLaw_settles scope).recordLocal p)

/-- **What an engine does by itself settles within every conduct** that keeps worlds ready. -/
theorem openingLaw_settling {g : Engine} {o : Opening} (hR : ScopeConduct o.scope.ticket R)
    (hready : ∀ w w', ready w → R w w' → ready w') : OpeningLaw g o (settling ready R) where
  toScopeLaw := scopeLaw_settling hR.toCodeConduct hready
  emit e answer he := settling_of_within (hR.notifyingLaw.emit e answer he) (settles_emit e answer)
  advance target :=
    settling_of_within (hR.within_advance g target) ((g.openingLaw_settles o).advance target)
  recordArtifact a := settling_of_within ((hR.openingLaw g).recordArtifact a) (settles_modify _)
  register m := settling_of_within ((hR.openingLaw g).register m) (settles_modify _)

end Run
end ModuleBuild
