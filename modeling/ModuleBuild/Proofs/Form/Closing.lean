import ModuleBuild.Proofs.Compile.Closing
import ModuleBuild.Proofs.Form.Rejection
import ModuleBuild.Proofs.Form.Reports
import ModuleBuild.Proofs.Form.Termination

/-! # Teardown of modules written in forms

Once the compilation of a module that was opened settles, the module is closed: its name is not
open and its stores are gone.  That holds for all bodies and hooks, and wherever observers and the
receiver of warnings fail, but for one case: that the observer of the last move fails, and then
either it cannot be said why or the receiver of the warning fails too (`compile_teardown`).
-/
namespace ModuleBuild

open Run

namespace FormLibrary

/-- **A module that was opened is closed exactly if the host did not break that off.**  A
compilation settles; if it opened its module, the log that it leaves says whether the host broke
off the closing at the last move.  If it did, the module is still open under its ticket, in its
last phase and with its stores; otherwise its name is not open and its stores are gone. -/
theorem compile_teardown (lib : FormLibrary) (host : Host) (name : String) (env : CompileEnv)
    (body : List Form) (w : World) :
    (lib.compile host name env body w).1 ≠ .error .exhausted ∧
      ∀ depth outcome w' o w₁, ((lib.engine host depth).compile name env
          (lib.evaluation (lib.engine host depth) body)).SettlesAs w outcome w' →
        (lib.engine host depth).openModule name env w = (.ok o, w₁) →
        (w'.HasClosed name o.scope.ticket ↔ ¬ host.BreaksClosing name w'.log) ∧
          (host.BreaksClosing name w'.log → w'.HasOpen name o.scope.ticket .closed) := by
  refine ⟨compile_ne_exhausted lib host name body env w, ?_⟩
  intro depth outcome w' o w₁ hsettles hopen
  have hhost : (lib.engine host depth).host = host := host_engine depth
  have hR := compileConduct_skirts host
  have hskirts (scope : ModuleScope) : (lib.engine host depth).FiresWithin scope World.Skirts :=
    firesWithin_engine hR depth scope
  have hL : RejectionLaw lib (lib.engine host depth) fun _ => True :=
    ⟨fun _ _ => trivial, fun _ _ => trivial, lib.firesAbiding_engine host depth,
      lib.nested_leaves host depth⟩
  have hended : World.HasEnded (lib.engine host depth).host name o.scope.ticket
      ((lib.engine host depth).compile name env
        (lib.evaluation (lib.engine host depth) body) w).2 :=
    Engine.ended_of_compile hL.host hskirts
      (fun env scope => within_evalBody hR hhost hskirts scope _ env body) hL.fire
      (fun env scope => abides_evalBody hL scope (.value .null) env body) hopen
      hsettles.ne_exhausted
  rw [hsettles, hhost] at hended
  rcases hended with ⟨hclosed, hwhole⟩ | ⟨hleft, hbreaks⟩
  · exact ⟨iff_of_true hclosed hwhole, fun hbreaks => (hwhole hbreaks).elim⟩
  · refine ⟨iff_of_false (fun hclosed => ?_) (fun hwhole => hwhole hbreaks), fun _ => hleft⟩
    cases hclosed.name.symm.trans hleft.name

/-! ## A host that breaks closings off -/

namespace Interrupting

/-- A host whose observers fail when a module makes its last move, and whose receiver of warnings
fails always. -/
def host : Host where
  options := .default "/work"
  observe log :=
    match log.getLast? with
    | some (.moved _ (_, .closed)) => some (.typeError "no observer")
    | _ => none
  warn _ := some (.typeError "no receiver")
  listener := none
  loader := none

def env : CompileEnv := ⟨"lib/sample", 1, none, none, []⟩

def before : World := ⟨.empty, .empty, ⟨"run", []⟩, []⟩

end Interrupting

open Interrupting in
/-- An empty module stays open. -/
theorem compile_teardown_interrupted :
    ∃ outcome w', (FormLibrary.compile ⟨[], []⟩ Interrupting.host "Sample" env []).SettlesAs before
        outcome w' ∧
      Interrupting.host.BreaksClosing "Sample" w'.log ∧ w'.HasOpen "Sample" 0 .closed ∧
      ¬ w'.HasClosed "Sample" 0 := by
  obtain ⟨hne, hteardown⟩ := compile_teardown ⟨[], []⟩ Interrupting.host "Sample" env [] before
  obtain ⟨outcome, w', hsettles⟩ := exists_settlesAs hne
  obtain ⟨hclosed, hleft⟩ := hteardown _ _ _ _ _ hsettles rfl
  have hname : (FormLibrary.compile ⟨[], []⟩ Interrupting.host "Sample" env []
      before).2.registry.opened.get? "Sample" = some 0 := by decide +kernel
  rw [hsettles] at hname
  have hbreaks : Interrupting.host.BreaksClosing "Sample" w'.log := by
    by_contra hwhole
    cases hname.symm.trans (hclosed.mpr hwhole).name
  exact ⟨outcome, w', hsettles, hbreaks, hleft hbreaks, fun hgone => hclosed.mp hgone hbreaks⟩

end FormLibrary
end ModuleBuild
