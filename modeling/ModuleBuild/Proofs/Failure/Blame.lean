import Mathlib.Tactic.Push
import ModuleBuild.Failure.Normalize

/-! # Which function is said to be missing

A failure comes down to the first call of an unknown function on its chain of causes
(`Failure.ComesDownTo`); `Failure.undefinedCall?` finds that call (`undefinedCall?_eq_some_iff`), for
causes are smaller than what they cause (`cause_induction`).

A failure that leaves the compilation of a module is rewritten if the first frame of that call lies
in the module (`normalize_of_origin`).  What it then says is missing has the name and the arity of
the call, but the module of the frame: it is the function that was called exactly if the frame lies
in the module of that function (`normalize_blames`).
-/
namespace ModuleBuild
namespace Failure

/-- The failure is a call of an unknown function, or it is none and what caused it comes down to
that call. -/
inductive ComesDownTo : Failure → UndefinedCall → Prop where
  | call (module : String) (pair : NameArity) (frames : List Frame) (cause : Cause) :
      ComesDownTo (.undefinedFunction module pair frames cause) ⟨module, pair, frames⟩
  | cause {f g : Failure} {u : UndefinedCall}
      (hother : ∀ m p fs k, f ≠ .undefinedFunction m p fs k) (hcause : f.cause = .failure g)
      (h : ComesDownTo g u) : ComesDownTo f u

/-- The function that a failure says is not available, with its module. -/
def missing? : Failure → Option (String × NameArity)
  | condition (.functionNotAvailable m p) _ _ _ _ => some (m, p)
  | _ => none

/-! ## The chain of causes -/

theorem sizeOf_lt_of_cause {f g : Failure} (h : f.cause = .failure g) : sizeOf g < sizeOf f := by
  cases f with
  | thrown v => cases h
  | condition c l fs o k =>
    obtain rfl : k = .failure g := h
    simp only [condition.sizeOf_spec, Cause.failure.sizeOf_spec]
    omega
  | undefinedFunction m p fs k =>
    obtain rfl : k = .failure g := h
    simp only [undefinedFunction.sizeOf_spec, Cause.failure.sizeOf_spec]
    omega
  | exception e m fs k =>
    obtain rfl : k = .failure g := h
    simp only [exception.sizeOf_spec, Cause.failure.sizeOf_spec]
    omega

/-- What holds of a failure if it holds of its cause holds of every failure. -/
theorem cause_induction {motive : Failure → Prop}
    (step : ∀ f, (∀ g, f.cause = .failure g → motive g) → motive f) (f : Failure) : motive f :=
  step f fun g _ => cause_induction step g
termination_by f
decreasing_by exact sizeOf_lt_of_cause ‹_›

/-- The call is looked for in the cause of everything that is not such a call itself. -/
theorem undefinedCall?_of_cause {f : Failure}
    (hother : ∀ m p fs k, f ≠ .undefinedFunction m p fs k) :
    f.undefinedCall? = f.cause.undefinedCall? := by
  cases f with
  | undefinedFunction m p fs k => exact absurd rfl (hother m p fs k)
  | _ => rfl

/-- **The call that is found is the first on the chain.** -/
theorem undefinedCall?_eq_some_iff {f : Failure} {u : UndefinedCall} :
    f.undefinedCall? = some u ↔ f.ComesDownTo u := by
  constructor
  · induction f using cause_induction with
    | step f ih =>
      intro h
      by_cases hcall : ∃ m p fs k, f = .undefinedFunction m p fs k
      · obtain ⟨m, p, fs, k, rfl⟩ := hcall
        cases h
        exact .call m p fs k
      · push Not at hcall
        rw [undefinedCall?_of_cause hcall] at h
        cases hcause : f.cause with
        | failure g =>
          rw [hcause] at h
          exact .cause hcall hcause (ih g hcause h)
        | none | enclosing =>
          rw [hcause] at h
          cases h
  · intro h
    induction h with
    | call => rfl
    | cause hother hcause _ ih =>
      rw [undefinedCall?_of_cause hother, hcause]
      exact ih

/-! ## Leaving a module -/

variable {f : Failure} {u : UndefinedCall} {m : String}

theorem notAvailable?_eq (h : f.ComesDownTo u) (m : String) (l : Option Location) :
    f.notAvailable? m l = u.frames.head?.bind fun origin =>
      if origin.module = m then
        some (condition (.functionNotAvailable m u.pair) (origin.location <|> l)
          (f.frames?.getD u.frames) (some origin) (.failure f))
      else none := by
  rw [notAvailable?, undefinedCall?_eq_some_iff.mpr h]
  rfl

/-- A failure that comes down to no such call is left as it is. -/
theorem normalize_of_none (h : ∀ u, ¬f.ComesDownTo u) (m : String) (l : Option Location) :
    f.normalize m l = f := by
  have hnone : f.undefinedCall? = none := by
    rw [Option.eq_none_iff_forall_ne_some]
    exact fun u hu => h u (undefinedCall?_eq_some_iff.mp hu)
  rw [normalize, notAvailable?, hnone]
  rfl

/-- A failure is rewritten in the module where the first frame of the call lies. -/
theorem normalize_of_origin {origin : Frame} (h : f.ComesDownTo u)
    (horigin : u.frames.head? = some origin) (l : Option Location) :
    f.normalize origin.module l
      = condition (.functionNotAvailable origin.module u.pair) (origin.location <|> l)
          (f.frames?.getD u.frames) (some origin) (.failure f) := by
  rw [normalize, notAvailable?_eq h, horigin, Option.bind_some, if_pos rfl]
  rfl

/-- A failure is left as it is in every other module. -/
theorem normalize_of_ne (h : f.ComesDownTo u) (hne : ∀ origin ∈ u.frames.head?, origin.module ≠ m)
    (l : Option Location) : f.normalize m l = f := by
  rw [normalize, notAvailable?_eq h]
  cases horigin : u.frames.head? with
  | none => rfl
  | some origin =>
    rw [Option.bind_some, if_neg (hne origin horigin)]
    rfl

/-- A failure is not what it causes. -/
theorem condition_ne (c : Condition) (l : Option Location) (fs : List Frame) (o : Option Frame) :
    condition c l fs o (.failure f) ≠ f := fun heq =>
  absurd (sizeOf_lt_of_cause (f := condition c l fs o (.failure f)) rfl) (by rw [heq]; omega)

theorem normalize_ne_iff (h : f.ComesDownTo u) (m : String) (l : Option Location) :
    f.normalize m l ≠ f ↔ ∃ origin ∈ u.frames.head?, origin.module = m := by
  constructor
  · intro hne
    refine Classical.byContradiction fun hnone => hne (normalize_of_ne h ?_ l)
    exact fun origin horigin hm => hnone ⟨origin, horigin, hm⟩
  · rintro ⟨origin, horigin, rfl⟩
    rw [normalize_of_origin h horigin]
    exact condition_ne _ _ _ _

/-- **Which function is said to be missing.**  A failure that comes down to no call of an unknown
function is left as it is.  One that does is rewritten in the module where the first frame of the
call lies, and in no other; it then says that a function of that module is missing which has the
name and the arity of the one that was called.  That this is the function that was called, whatever
module is being compiled, is so exactly if the first frame lies in the module of that function. -/
theorem normalize_blames (f : Failure) :
    ((∀ u, ¬f.ComesDownTo u) → ∀ m l, f.normalize m l = f) ∧
    ∀ u, f.ComesDownTo u →
      (∀ m l, f.normalize m l ≠ f ↔ ∃ origin ∈ u.frames.head?, origin.module = m) ∧
      (∀ m l, f.normalize m l ≠ f → (f.normalize m l).missing? = some (m, u.pair)) ∧
      ((∀ m l, f.normalize m l ≠ f → (f.normalize m l).missing? = some (u.module, u.pair)) ↔
        ∀ origin ∈ u.frames.head?, origin.module = u.module) := by
  refine ⟨normalize_of_none, fun u h => ?_⟩
  have hmissing : ∀ m l, f.normalize m l ≠ f → (f.normalize m l).missing? = some (m, u.pair) := by
    intro m l hne
    obtain ⟨origin, horigin, rfl⟩ := (normalize_ne_iff h m l).mp hne
    rw [normalize_of_origin h horigin]
    rfl
  refine ⟨normalize_ne_iff h, hmissing, fun hright origin horigin => ?_, fun hown m l hne => ?_⟩
  · -- in the module of the frame the failure is rewritten, so what it says there decides
    have hne : f.normalize origin.module none ≠ f :=
      (normalize_ne_iff h _ _).mpr ⟨origin, horigin, rfl⟩
    have hboth := (hmissing _ _ hne).symm.trans (hright _ _ hne)
    exact congrArg Prod.fst (Option.some.inj hboth)
  · obtain ⟨origin, horigin, rfl⟩ := (normalize_ne_iff h m l).mp hne
    rw [hmissing _ _ hne, hown origin horigin]

/-- A function of another module that is called from the module being compiled is said to be
missing from the latter. -/
theorem normalize_blames_caller :
    let frame : Frame := { module := "Sample", function := "run", arity := 0 }
    let f := undefinedFunction "Other" ⟨"helper", 1⟩ [frame] .none
    f.ComesDownTo ⟨"Other", ⟨"helper", 1⟩, [frame]⟩ ∧ f.normalize "Sample" none ≠ f ∧
      (f.normalize "Sample" none).missing? = some ("Sample", ⟨"helper", 1⟩) := by
  intro frame f
  have hcall : f.ComesDownTo ⟨"Other", ⟨"helper", 1⟩, [frame]⟩ := .call ..
  obtain ⟨hrewritten, hmissing, -⟩ := (normalize_blames f).2 _ hcall
  have hne : f.normalize "Sample" none ≠ f := (hrewritten _ _).mpr ⟨frame, rfl, rfl⟩
  exact ⟨hcall, hne, hmissing _ _ hne⟩

end Failure
end ModuleBuild
