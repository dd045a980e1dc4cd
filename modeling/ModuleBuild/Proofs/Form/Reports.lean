import ModuleBuild.Proofs.Compile.Reports
import ModuleBuild.Proofs.Form.Conduct

/-! # Warnings of modules written in forms

Whatever bodies and hooks do, and at whatever events observers fail, a compiled module returns the
warnings that its receiver was given on its behalf, in the same order, but for those that observers
failed (`compile_warnings`).  These are given and not returned.
-/
namespace ModuleBuild

open Run

/-- Code and the compilations in it say nothing of modules that are open. -/
theorem compileConduct_skirts (host : Host) : CompileConduct host fun _ => World.Skirts where
  scope := codeConduct_skirts
  compile _ _ _ hfire hevaluate name env _ := Engine.within_skirts_compile hfire hevaluate name env

namespace FormLibrary

/-- **What a compiled module returns of what was warned of.**  The receiver of warnings was given,
on behalf of the module, those of its opening and then those of its life up to its closing.  The
module returns the ones that do not say that an observer failed.  The others are one for each event
of the module at which its observer failed, so all are returned exactly if none did. -/
theorem compile_warnings {lib : FormLibrary} {host : Host} {depth : Nat} {name : String}
    {env : CompileEnv} {body : List Form} {w w' : World} {c : CompiledModule}
    (h : (lib.engine host depth).compile name env
      (lib.evaluation (lib.engine host depth) body) w = (.ok c, w')) :
    ∃ o w₁ es, (lib.engine host depth).openModule name env w = (.ok o, w₁) ∧
      w₁.log = w.log ++ o.warnings.map (.warned name) ∧ w'.log = w₁.log ++ es ∧
      (∀ d ∈ o.warnings, d.code = .moduleRedefined) ∧
      c.warnings = ofCompilation (o.warnings ++ warningsOf name es) ∧
      ofObservers (o.warnings ++ warningsOf name es)
        = observerWarnings host name o.location w₁.log es ∧
      (c.warnings = o.warnings ++ warningsOf name es ↔
        observerWarnings host name o.location w₁.log es = []) := by
  have hR := compileConduct_skirts host
  have hhost : (lib.engine host depth).host = host := host_engine depth
  have hfire (scope : ModuleScope) : (lib.engine host depth).FiresWithin scope World.Skirts :=
    firesWithin_engine hR depth scope
  obtain ⟨o, w₁, ds, hopen, rfl, hlog₁, hcode, hwarnings, hreports⟩ :=
    Engine.reports_of_compile hfire
      (fun env scope => within_evalBody hR hhost hfire scope _ env body) h
  obtain ⟨es, hlog, ⟨hown, hobservers⟩, -⟩ := hreports.told
  rw [hhost] at hobservers
  have hsome : ofCompilation o.warnings = o.warnings :=
    List.filter_eq_self.mpr fun d hd => by simp [hcode d hd]
  have hnone : ofObservers o.warnings = [] :=
    List.filter_eq_nil_iff.mpr fun d hd => by simp [hcode d hd]
  have hreturned : c.warnings = ofCompilation (o.warnings ++ warningsOf o.scope.module es) := by
    rw [hwarnings, ofCompilation, List.filter_append]
    exact congrArg₂ _ hsome.symm hown.symm
  have hgiven : ofObservers (o.warnings ++ warningsOf o.scope.module es)
      = observerWarnings host o.scope.module o.location w₁.log es := by
    rw [ofObservers, List.filter_append]
    exact (congrArg₂ _ hnone hobservers).trans (List.nil_append _)
  refine ⟨o, w₁, es, hopen, hlog₁, hlog, hcode, hreturned, hgiven, ?_⟩
  rw [hreturned, ← hgiven]
  exact ofCompilation_eq_self

/-! ## Observers that fail at every move -/

namespace Unheard

/-- A host whose observers fail whenever a module goes to another phase. -/
def host : Host where
  options := .default "/work"
  observe log :=
    match log.getLast? with
    | some (.moved ..) => some (.typeError "no observer")
    | _ => none
  warn _ := none
  listener := none
  loader := none

def env : CompileEnv := ⟨"lib/sample", 1, none, none, []⟩

/-- A module whose documentation nothing takes up. -/
def body : List Form := [.act none (.write "doc" (.text "of nothing"))]

def before : World := ⟨.empty, .empty, ⟨"run", []⟩, []⟩

end Unheard

open Unheard in
/-- The module returns one warning of the six that its receiver was given. -/
theorem compile_warnings_unheard :
    ∃ (c : CompiledModule) (w' : World) (o : Opening) (w₁ : World) (es : List Event),
      FormLibrary.compile ⟨[], []⟩ Unheard.host "Sample" env body before = (.ok c, w') ∧
      w₁.log = before.log ++ o.warnings.map (.warned "Sample") ∧ w'.log = w₁.log ++ es ∧
      c.warnings.map Diagnostic.code = [.docUnused] ∧
      (warningsOf "Sample" es).map Diagnostic.code
        = [.observerFailed, .observerFailed, .docUnused, .observerFailed, .observerFailed,
          .observerFailed] ∧
      c.warnings ≠ o.warnings ++ warningsOf "Sample" es := by
  have hends : ((FormLibrary.compile ⟨[], []⟩ Unheard.host "Sample" env body before).1.toOption.map
        fun c => c.warnings.map Diagnostic.code,
      (warningsOf "Sample" (FormLibrary.compile ⟨[], []⟩ Unheard.host "Sample" env body
        before).2.log).map Diagnostic.code)
      = (some [.docUnused], [.observerFailed, .observerFailed, .docUnused, .observerFailed,
        .observerFailed, .observerFailed]) := by decide +kernel
  obtain ⟨hreturned, hgiven⟩ := Prod.mk.inj hends
  obtain ⟨c, hc, hcodes⟩ := Option.map_eq_some_iff.mp hreturned
  have hrun : FormLibrary.compile ⟨[], []⟩ Unheard.host "Sample" env body before = (.ok c, _) :=
    Prod.ext (toOption_eq_some.mp hc) rfl
  obtain ⟨o, w₁, es, -, hlog₁, hlog, hcode, -⟩ := compile_warnings hrun
  have hopening : warningsOf "Sample" w₁.log = [] := by
    rw [hlog₁]
    exact warningsOf_eq_nil fun e he hm => by
      rw [Engine.regarded?_of_redefinitions hcode e he] at hm
      cases hm
  rw [hlog, warningsOf_append, hopening, List.nil_append] at hgiven
  refine ⟨c, _, o, w₁, es, hrun, hlog₁, hlog, hcodes, hgiven, fun hall => ?_⟩
  -- six were given in the module's life alone
  have hlength := congrArg List.length (congrArg (List.map Diagnostic.code) hall)
  rw [hcodes, List.map_append, hgiven, List.length_append] at hlength
  exact absurd hlength (by simp)

end FormLibrary
end ModuleBuild
