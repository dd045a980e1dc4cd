import ModuleBuild.Proofs.Compile.Teardown
import ModuleBuild.Proofs.Form.Conduct
import ModuleBuild.Proofs.Registry.Use

/-! # The registry after a compilation

Whatever a body and the hooks it registers do, and wherever the compilation fails,
the registry that `FormLibrary.compile` leaves has the open modules it had before,
under the same tickets and with the same entries.  The entries that were added on the
way have no stores left: every use of these is refused.

That needs a host of which all observers fail in a way that can be described, and whose
receiver of warnings returns (`Host.ReportsReturn`).  What happens otherwise is said in
`compile_teardown`.
-/
namespace ModuleBuild

namespace FormLibrary

/-- Compilations act on no entry but that of the module they are nested in. -/
theorem compileConduct_actedOn {host : Host} (hreports : host.ReportsReturn) :
    CompileConduct host fun t w w' => Registry.ActedOn (some t) w.registry w'.registry where
  scope t := (scopeConduct_actedOn t).toCodeConduct
  compile _ _ hhost hfire hevaluate name env t :=
    (Engine.actedOn_compile (hhost ▸ hreports) hfire hevaluate name env).mono
      fun _ _ h => h.of_none (some t)

/-! ## The law -/

/-- **A compilation restores the registry.**  Once it settles, the names that are open
are open under the tickets they had, the entries that were there are as they were, and
every entry that it added is open under no name, and its stores refuse every use.  What can
still be had of such an entry is the number of its definitions, which is zero, and what concerns
its documentation. -/
theorem compile_restores_registry (lib : FormLibrary) (host : Host) (hreports : host.ReportsReturn)
    (name : String) (env : CompileEnv) (body : List Form) {w w' : World}
    {outcome : Except Failure CompiledModule}
    (hsettles : (lib.compile host name env body).SettlesAs w outcome w') :
    w'.registry.opened = w.registry.opened ∧
      (∀ t, t < w.registry.entries.length → w'.registry.find? t = w.registry.find? t) ∧
      ∀ t e, w.registry.entries.length ≤ t → w'.registry.find? t = some e →
        (∀ m, w'.registry.opened.get? m ≠ some t) ∧
          (∀ u : StoreUse, ∃ p, (EntryUse.store u).apply e = .error p ∧
            p.condition.code.id = "MODF-R005") ∧
          e.definitions.size = 0 ∧
          ∀ u : EntryUse, (∀ s, u ≠ .store s) → ∃ answer, u.apply e = .ok answer := by
  have hR := compileConduct_actedOn hreports
  have hhost : (lib.engineFor host body).host = host := host_engine _
  have hfire (scope : ModuleScope) :
      (lib.engineFor host body).FiresWithin scope fun w w' =>
        Registry.ActedOn (some scope.ticket) w.registry w'.registry :=
    firesWithin_engine hR (lib.depth body) scope
  have hact : Registry.ActedOn none w.registry (lib.compile host name env body w).2.registry :=
    Engine.actedOn_compile (hhost.symm ▸ hreports) hfire
      (fun env scope => within_evalBody hR hhost hfire scope _ env body) name env w
      hsettles.ne_exhausted
  rw [hsettles] at hact
  refine ⟨hact.opened, ?_, ?_⟩
  · intro t ht
    exact hact.kept t ht nofun
  · intro t e ht he
    have hgone : e.HasNoStores := hact.added t e ht nofun he
    refine ⟨?_, fun u => u.refused_of_hasNoStores hgone, ?_, fun u hu => u.exists_answer hu e⟩
    · -- what was open before has a ticket of before
      intro m hm
      rw [hact.opened] at hm
      exact Nat.not_lt_of_le ht (Registry.lt_length_of_opened hm)
    · rw [DefinitionStore.size, hgone.definitions]
      rfl

/-! ## A module that is opened within itself -/

namespace Reopening

/-- A host whose observers fail at every event. -/
def host : Host where
  options := .default "/work"
  observe _ := some (.typeError "no observer")
  warn _ := none
  listener := none
  loader := none

def env : CompileEnv := ⟨"outer", 1, none, none, []⟩

/-- A body that nests a module, which nests the module of the body. -/
def body : List Form := [.module none "Inner" [.module (some 3) "Outer" []]]

/-- The world before: one module is open. -/
def before : World where
  registry := Registry.empty.add (.new "Held" "run" ⟨"held", 1⟩ true)
  code := .empty
  session := ⟨"run", []⟩
  log := []

def refused : Failure := .ofProblem ⟨.moduleBeingDefined "Outer" ⟨"outer", 1⟩, some ⟨"outer", 3⟩⟩

/-- The world after: two entries were added on the way. -/
def after : World := (FormLibrary.compile ⟨[], []⟩ host "Outer" env body before).2

end Reopening

open Reopening in
theorem compile_restores_registry_reopening :
    Reopening.host.ReportsReturn ∧
      (FormLibrary.compile ⟨[], []⟩ Reopening.host "Outer" env body).SettlesAs before
        (.error refused) after ∧
      before.registry.entries.length = 1 ∧ after.registry.entries.length = 3 ∧
      after.registry.opened = before.registry.opened ∧
      (∀ t, t < before.registry.entries.length →
        after.registry.find? t = before.registry.find? t) ∧
      ∀ t e, before.registry.entries.length ≤ t → after.registry.find? t = some e →
        (∀ m, after.registry.opened.get? m ≠ some t) ∧
          (∀ u : StoreUse, ∃ p, (EntryUse.store u).apply e = .error p ∧
            p.condition.code.id = "MODF-R005") ∧
          e.definitions.size = 0 ∧
          ∀ u : EntryUse, (∀ s, u ≠ .store s) → ∃ answer, u.apply e = .ok answer := by
  have hreports : Reopening.host.ReportsReturn :=
    ⟨fun _ => rfl, fun _ _ h => Option.some.inj h ▸ ⟨_, rfl⟩⟩
  have hsettles : (FormLibrary.compile ⟨[], []⟩ Reopening.host "Outer" env body).SettlesAs before
      (.error refused) after := Prod.ext rfl rfl
  exact ⟨hreports, hsettles, rfl, rfl,
    compile_restores_registry ⟨[], []⟩ Reopening.host hreports "Outer" env body hsettles⟩

end FormLibrary
end ModuleBuild
