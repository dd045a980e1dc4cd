import ModuleBuild.Proofs.Compile.Trace
import ModuleBuild.Proofs.Form.Restoration
import ModuleBuild.Proofs.Form.Termination

/-! # What observers see of compilations of forms

Whatever bodies and hooks do, and whatever the host answers, every compilation that opens its
module leaves one complete trace of it, in which the traces of nested modules stand whole; a
compilation that does not open its module leaves nothing.
-/
namespace ModuleBuild

open Run

/-- Code compiles modules one after the other, and each compilation leaves a trace or
nothing. -/
theorem compileConduct_nests {host : Host} (hreports : host.ReportsReturn) :
    CompileConduct host World.Nests where
  scope := codeConduct_nests
  compile g evaluate hhost hfire hevaluate name env t := by
    intro w hsettles
    have hreports' : g.host.ReportsReturn := hhost ▸ hreports
    obtain ⟨outcome, w', hrun⟩ := exists_settlesAs hsettles
    have hacted : Registry.ActedOn none w.registry (g.compile name env evaluate w).2.registry :=
      Engine.actedOn_compile hreports'
        (fun scope phase target subject env =>
          (hfire scope phase target subject env).mono fun _ _ h => h.acted)
        (fun env scope => (hevaluate env scope).mono fun _ _ h => h.acted) name env w hsettles
    have htold := Engine.trace_of_compile hreports' hfire hevaluate hrun
    rw [hrun] at hacted ⊢
    refine ⟨hacted.of_none _, fun e he => ⟨e, ?_, rfl⟩, ?_⟩
    · rw [hacted.kept t (List.getElem?_eq_some_iff.mp he).1 nofun, he]
    · rcases htold with ⟨f, w₁, -, -, hlog⟩ | ⟨o, w₁, es, -, hlog, htrace, hother⟩
      · exact ⟨[], by rw [List.flatten_nil, List.append_nil, hlog], nofun⟩
      · refine ⟨[es], by rw [List.flatten_singleton, hlog], fun es' hes' => ?_⟩
        obtain rfl : es' = es := List.mem_singleton.mp hes'
        exact ⟨⟨name, failureOf outcome, htrace⟩, hother⟩

namespace FormLibrary

/-- **Every compilation leaves one complete trace of its module** if it opens it, with the
failure that its caller receives, and nothing if it does not open it.  The module's own events
in the trace are those of one life. -/
theorem compile_observed (lib : FormLibrary) (host : Host) (hreports : host.ReportsReturn)
    (name : String) (env : CompileEnv) (body : List Form) (w : World) :
    (lib.compile host name env body w).1 ≠ .error .exhausted ∧
      ∀ depth outcome w', ((lib.engine host depth).compile name env
          (lib.evaluation (lib.engine host depth) body)).SettlesAs w outcome w' →
        (∃ f w₁, (lib.engine host depth).openModule name env w = (.error (.failed f), w₁) ∧
          outcome = .error f ∧ observed w'.log = observed w.log) ∨
        ∃ o w₁ es, (lib.engine host depth).openModule name env w = (.ok o, w₁) ∧
          observed w'.log = observed w.log ++ es ∧
          Trace name (.ended (failureOf outcome)) es ∧
          IsLife name (failureOf outcome) (eventsOf name es) := by
  refine ⟨compile_ne_exhausted lib host name body env w, fun depth outcome w' hsettles => ?_⟩
  have hR := compileConduct_nests hreports
  have hhost : (lib.engine host depth).host = host := host_engine depth
  have hfire (scope : ModuleScope) :
      (lib.engine host depth).FiresWithin scope (World.Nests scope.ticket) :=
    firesWithin_engine hR depth scope
  have htold := Engine.trace_of_compile (hhost.symm ▸ hreports) hfire
    (fun env scope => within_evalBody hR hhost hfire scope _ env body) hsettles
  rcases htold with hnothing | ⟨o, w₁, es, hopen, hlog, htrace, -⟩
  · exact .inl hnothing
  · exact .inr ⟨o, w₁, es, hopen, hlog, htrace, htrace.isLife⟩

open Reopening in
theorem compile_observed_reopening :
    Reopening.host.ReportsReturn ∧
      (FormLibrary.compile ⟨[], []⟩ Reopening.host "Outer" env body).SettlesAs before
        (.error refused) after ∧
      ∃ es, observed after.log = observed before.log ++ es ∧
        Trace "Outer" (.ended (some refused)) es ∧
        IsLife "Outer" (some refused) (eventsOf "Outer" es) := by
  have hreports : Reopening.host.ReportsReturn :=
    ⟨fun _ => rfl, fun _ _ h => Option.some.inj h ▸ ⟨_, rfl⟩⟩
  have hsettles : (FormLibrary.compile ⟨[], []⟩ Reopening.host "Outer" env body).SettlesAs before
      (.error refused) after := Prod.ext rfl rfl
  refine ⟨hreports, hsettles, ?_⟩
  rcases (compile_observed ⟨[], []⟩ Reopening.host hreports "Outer" env body before).2
    (FormLibrary.depth ⟨[], []⟩ body) _ _ hsettles with ⟨f, w₁, hopen, -⟩ | ⟨_, _, es, -, htrace⟩
  · cases hopen
  · exact ⟨es, htrace⟩

end FormLibrary
end ModuleBuild
