import ModuleBuild.Proofs.Compile.Teardown
import ModuleBuild.Proofs.Form.Conduct

/-! # What code leaves alone

Code of a module changes the entry under its ticket, and opens entries of its own for the
modules nested in it; the other entries stay as they are (`World.Leaves`).  That holds however
the nested modules end: one that cannot be closed may stay open, but it is not one of those
that were there (`leaves_compile`).
-/
namespace ModuleBuild

open Run

/-- Of the entries that were there only the one under `own` may have changed. -/
structure World.Leaves (own : Option Ticket) (w w' : World) : Prop where
  length_le : w.registry.entries.length ≤ w'.registry.entries.length
  kept : ∀ t, t < w.registry.entries.length → own ≠ some t →
    w'.registry.find? t = w.registry.find? t

namespace World.Leaves

variable {own : Option Ticket} {w w' w'' : World} {t : Ticket} {e : ModuleEntry}

theorem of_registry (h : w'.registry = w.registry) : w.Leaves own w' where
  length_le := Nat.le_of_eq (by rw [h])
  kept _ _ _ := by rw [h]

theorem trans (h : w.Leaves own w') (h' : w'.Leaves own w'') : w.Leaves own w'' where
  length_le := Nat.le_trans h.length_le h'.length_le
  kept t ht hown := by
    rw [h'.kept t (Nat.lt_of_lt_of_le ht h.length_le) hown, h.kept t ht hown]

/-- What leaves all entries alone leaves them alone but for a given one. -/
theorem of_none (h : w.Leaves none w') (own : Option Ticket) : w.Leaves own w' where
  length_le := h.length_le
  kept t ht _ := h.kept t ht nofun

theorem update (w : World) (t : Ticket) (f : ModuleState → ModuleState) :
    w.Leaves (some t) { w with registry := w.registry.update t f } where
  length_le := Nat.le_of_eq (Registry.length_entries_update ..).symm
  kept u _ hne := by
    rw [Registry.find?_update, if_neg fun h => hne (congrArg some h)]

theorem close (w : World) (t : Ticket) :
    w.Leaves (some t) { w with registry := w.registry.close t } where
  length_le := Nat.le_of_eq (Registry.length_entries_close ..).symm
  kept u _ hne := by
    rw [Registry.find?_close, if_neg fun h => hne (congrArg some h)]

/-- An entry that was there is found again. -/
theorem find? (h : w.Leaves none w') (he : w.registry.find? t = some e) :
    w'.registry.find? t = some e := by
  rw [h.kept t (List.getElem?_eq_some_iff.mp he).1 nofun, he]

end World.Leaves

theorem scopeConduct_leaves (t : Ticket) : ScopeConduct t (World.Leaves (some t)) where
  refl _ := .of_registry rfl
  trans := .trans
  note _ _ _ := .of_registry rfl
  change w _ _ _ _ := .update w t _
  log _ _ _ := .of_registry rfl
  move w _ _ _ _ := .update w t _
  produce _ _ _ := .of_registry rfl
  register _ _ := .of_registry rfl

/-- **A compilation leaves the entries of its callers alone.** -/
theorem Engine.leaves_compile {g : Engine} {evaluate : EvaluateBody}
    (hfire : ∀ scope, g.FiresWithin scope (World.Leaves (some scope.ticket)))
    (hevaluate : ∀ env scope, Within (World.Leaves (some scope.ticket)) (evaluate env scope))
    (name : String) (env : CompileEnv) :
    Within (World.Leaves none) (g.compile name env evaluate) := by
  intro w hsettles
  unfold compile at hsettles ⊢
  rw [bind_apply] at hsettles ⊢
  rcases openModule_cases g name env w with ⟨f, ds, hopen, -⟩ | ⟨-, hopen⟩
  · rw [hopen]
    exact .of_registry rfl
  · simp only [hopen] at hsettles ⊢
    let o := g.opening name env w
    have hfinish : Within (World.Leaves (some o.scope.ticket)) (g.finish o evaluate) :=
      (scopeConduct_leaves o.scope.ticket).within_finish (hfire _) (fun env => hevaluate env _)
        (fun w => .close w _) fun _ _ => .of_registry rfl
    have hleaves := hfinish _ hsettles
    have hlength : w.registry.entries.length
        ≤ (w.registry.add (g.newEntry name env w)).entries.length := by simp [Registry.add]
    refine ⟨Nat.le_trans hlength hleaves.length_le, fun t ht _ => ?_⟩
    -- the entry that is compiled is none of those that were there before
    rw [hleaves.kept t (Nat.lt_of_lt_of_le ht hlength) fun h =>
      Nat.ne_of_gt ht (Option.some.inj h), Registry.find?_add, if_neg (Nat.ne_of_lt ht)]

theorem compileConduct_leaves (host : Host) :
    CompileConduct host fun t => World.Leaves (some t) where
  scope t := (scopeConduct_leaves t).toCodeConduct
  compile _ _ _ hfire hevaluate name env t w hsettles :=
    (Engine.leaves_compile hfire hevaluate name env w hsettles).of_none (some t)

namespace FormLibrary

variable (lib : FormLibrary) (host : Host) (depth : Nat)

theorem fires_leaving (scope : ModuleScope) :
    (lib.engine host depth).FiresWithin scope (World.Leaves (some scope.ticket)) :=
  firesWithin_engine (compileConduct_leaves host) depth scope

/-- **A module nested in another leaves the other alone.** -/
theorem nested_leaves (name : String) (env : CompileEnv) (body : List Form) :
    Within (World.Leaves none) ((lib.engine host depth).compile name env
      (lib.evaluation (lib.engine host depth) body)) := by
  refine Engine.leaves_compile (lib.fires_leaving host depth) (fun env scope => ?_) name env
  exact within_evalBody (compileConduct_leaves host) (host_engine depth)
    (lib.fires_leaving host depth) scope _ env body

end FormLibrary
end ModuleBuild
