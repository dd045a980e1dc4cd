import ModuleBuild.Proofs.Compile.Within

/-! # Relations of runs

Two engines with the same host may differ in how the hooks of other modules are run,
and then every run of the one has its counterpart of the other.  What holds of all
such pairs is stated by a relation of runs that the combinators respect
(`RunRelation.Congruence`): it needs to be checked where the world is read or changed,
where a hook is called and where a module is compiled, and follows for whatever is made
of these.

A law of single runs is a relation that does not look at the second run: that a run
stays within a conduct (`Run.within`) is one.
-/
namespace ModuleBuild

/-- A relation of runs with results of one type. -/
abbrev RunRelation : Type 1 := ∀ ⦃α : Type⦄, Run α → Run α → Prop

/-- A relation that the combinators of runs respect. -/
structure RunRelation.Congruence (P : RunRelation) : Prop where
  pure : ∀ {α : Type} (a : α), P (pure a : Run α) (pure a)
  fail : ∀ {α : Type} (f : Failure), P (Run.fail f : Run α) (Run.fail f)
  get : P (get : Run World) get
  bind : ∀ {α β : Type} {x x' : Run α} {f f' : α → Run β}, P x x' → (∀ a, P (f a) (f' a)) →
    P (x >>= f) (x' >>= f')
  attempt : ∀ {α : Type} {r r' : Run α}, P r r' → P (Run.attempt r) (Run.attempt r')

namespace RunRelation.Congruence

variable {P : RunRelation} (hP : P.Congruence) {α β : Type}
include hP

theorem ofCondition (x : Except Condition α) : P (Run.ofCondition x) (Run.ofCondition x) := by
  cases x with
  | ok a => exact hP.pure a
  | error c => exact hP.fail _

theorem ofProblem (x : Except Problem α) : P (Run.ofProblem x) (Run.ofProblem x) := by
  cases x with
  | ok a => exact hP.pure a
  | error p => exact hP.fail _

theorem ofFailure (x : Except Failure α) : P (Run.ofFailure x) (Run.ofFailure x) := by
  cases x with
  | ok a => exact hP.pure a
  | error f => exact hP.fail f

theorem map (f : α → β) {x x' : Run α} (h : P x x') : P (f <$> x) (f <$> x') := by
  rw [map_eq_pure_bind, map_eq_pure_bind]
  exact hP.bind h fun a => hP.pure _

theorem list_forM {f f' : α → Run PUnit} (hf : ∀ a, P (f a) (f' a)) (l : List α) :
    P (l.forM f) (l.forM f') := by
  induction l with
  | nil => exact hP.pure _
  | cons a rest ih => exact hP.bind (hf a) fun _ => ih

theorem option_forM {f f' : α → Run PUnit} (hf : ∀ a, P (f a) (f' a)) (o : Option α) :
    P (o.forM f) (o.forM f') := by
  cases o with
  | none => exact hP.pure _
  | some a => exact hf a

theorem entry (s : ModuleScope) : P (Run.entry s) (Run.entry s) := by
  refine hP.bind hP.get fun w => ?_
  cases w.registry.find? s.ticket with
  | some e => exact hP.pure e
  | none => exact hP.fail _

theorem attributes (s : ModuleScope) : P (Run.attributes s) (Run.attributes s) :=
  hP.bind (hP.entry s) fun _ => hP.ofCondition _

end RunRelation.Congruence

namespace Run

/-- That a run stays within a relation of worlds, as a relation of runs. -/
def within (R : World → World → Prop) : RunRelation := fun _ r _ => Within R r

theorem congruence_within {R : World → World → Prop} (hR : Conduct R) :
    (within R).Congruence where
  pure := within_pure hR
  fail := within_fail hR
  get := within_get hR
  bind := within_bind hR
  attempt := within_attempt

end Run
end ModuleBuild
