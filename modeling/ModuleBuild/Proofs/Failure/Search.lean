import Mathlib.Logic.Function.Iterate
import ModuleBuild.Proofs.Failure.Blame

/-! # The walk along causes

A chain of causes may be of any length, end in a value that is no failure, or lead back into
itself; then the walk along it (`advance`) goes round for ever.  A search that remembers the places
it has passed stops in every case (`search_iff`), and what it finds is what `Failure.undefinedCall?`
answers: the first call of an unknown function that the walk comes to
(`undefinedCall?_eq_some_iff_walk`), and none if it never comes to one
(`undefinedCall?_eq_none_iff_walk`).  That call alone decides what becomes of a failure that leaves
the compilation of a module (`search_laws`).

A place is a failure with those that enclose it, the nearest first: two failures of a chain may be
alike, but their places differ.
-/
namespace ModuleBuild
namespace Failure

/-- The place after a place, if the chain goes on: a cause that leads back stands for the failure
that encloses it at the distance. -/
def advance : List Failure → List Failure
  | [] => []
  | f :: enclosing =>
    match f.cause with
    | .none => []
    | .failure g => g :: f :: enclosing
    | .enclosing distance => (f :: enclosing).drop distance

/-- The call of an unknown function that a failure is. -/
def call? : Failure → Option UndefinedCall
  | .undefinedFunction m p fs _ => some ⟨m, p, fs⟩
  | _ => none

/-- The call that the walk from a place has come to after some steps. -/
def callAt? (place : List Failure) (steps : Nat) : Option UndefinedCall :=
  (advance^[steps] place).head?.bind call?

/-- A search from a place on, past places that it remembers, ends with a result. -/
inductive Search : List (List Failure) → List Failure → Option UndefinedCall → Prop where
  | ended {passed : List (List Failure)} : Search passed [] none
  | repeated {passed : List (List Failure)} {place : List Failure} (h : place ∈ passed) :
      Search passed place none
  | found {passed : List (List Failure)} {f : Failure} {enclosing : List Failure}
      {u : UndefinedCall} (hnew : f :: enclosing ∉ passed) (hcall : f.call? = some u) :
      Search passed (f :: enclosing) (some u)
  | onward {passed : List (List Failure)} {f : Failure} {enclosing : List Failure}
      {r : Option UndefinedCall} (hnew : f :: enclosing ∉ passed) (hother : f.call? = none)
      (h : Search ((f :: enclosing) :: passed) (advance (f :: enclosing)) r) :
      Search passed (f :: enclosing) r

variable {f : Failure} {u : UndefinedCall} {place enclosing : List Failure}

theorem undefinedCall?_of_call? (h : f.call? = some u) : f.undefinedCall? = some u := by
  cases f with
  | undefinedFunction m p fs k => exact h
  | condition | exception | thrown => cases h

theorem call?_of_undefinedCall?_eq_none (h : f.undefinedCall? = none) : f.call? = none := by
  cases hcall : f.call? with
  | none => rfl
  | some u =>
    rw [undefinedCall?_of_call? hcall] at h
    cases h

theorem undefinedCall?_of_call?_eq_none (h : f.call? = none) :
    f.undefinedCall? = f.cause.undefinedCall? := by
  refine undefinedCall?_of_cause ?_
  rintro m p fs k rfl
  cases h

/-! ## The search ends -/

theorem advance_of_none (h : f.cause = .none) : advance (f :: enclosing) = [] := by
  rw [advance, h]

theorem advance_of_failure {g : Failure} (h : f.cause = .failure g) :
    advance (f :: enclosing) = g :: f :: enclosing := by
  rw [advance, h]

theorem advance_of_enclosing {distance : Nat} (h : f.cause = .enclosing distance) :
    advance (f :: enclosing) = (f :: enclosing).drop distance := by
  rw [advance, h]

/-- What is remembered are the places on the way to a place, and no others. -/
def Remembers (passed : List (List Failure)) (enclosing : List Failure) : Prop :=
  ∀ place, place ∈ passed ↔ place ≠ [] ∧ place <:+ enclosing

theorem remembers_nil : Remembers [] [] := by
  intro place
  rw [List.suffix_nil]
  exact iff_of_false List.not_mem_nil fun h => h.1 h.2

/-- Nothing is remembered of a place that has not been passed. -/
theorem Remembers.not_mem {passed : List (List Failure)} (h : Remembers passed enclosing) :
    f :: enclosing ∉ passed := by
  rw [h]
  rintro ⟨-, hsuffix⟩
  exact absurd hsuffix.length_le (by simp)

theorem Remembers.cons {passed : List (List Failure)} (h : Remembers passed enclosing) :
    Remembers ((f :: enclosing) :: passed) (f :: enclosing) := by
  intro place
  rw [List.mem_cons, h, List.suffix_cons_iff]
  constructor
  · rintro (rfl | ⟨hne, hsuffix⟩)
    · exact ⟨List.cons_ne_nil _ _, Or.inl rfl⟩
    · exact ⟨hne, Or.inr hsuffix⟩
  · rintro ⟨hne, rfl | hsuffix⟩
    · exact Or.inl rfl
    · exact Or.inr ⟨hne, hsuffix⟩

/-- A search that has passed the places on the way to a failure ends with the call that the failure
comes down to. -/
theorem search_of_remembers (f : Failure) {enclosing : List Failure}
    {passed : List (List Failure)} (h : Remembers passed enclosing) :
    Search passed (f :: enclosing) f.undefinedCall? := by
  induction f using cause_induction generalizing enclosing passed with
  | step f ih =>
    cases hcall : f.call? with
    | some u =>
      rw [undefinedCall?_of_call? hcall]
      exact .found h.not_mem hcall
    | none =>
      refine .onward h.not_mem hcall ?_
      rw [undefinedCall?_of_call?_eq_none hcall]
      cases hcause : f.cause with
      | none =>
        rw [advance_of_none hcause]
        exact .ended
      | failure g =>
        rw [advance_of_failure hcause]
        exact ih g hcause h.cons
      | enclosing distance =>
        -- the chain leads back to a place that has been passed, or nowhere
        rw [advance_of_enclosing hcause]
        by_cases hback : (f :: enclosing).drop distance = []
        · rw [hback]
          exact .ended
        · exact .repeated ((h.cons _).mpr ⟨hback, List.drop_suffix _ _⟩)

/-- Searches from one place that remember the same end alike. -/
theorem Search.unique {passed : List (List Failure)} {r r' : Option UndefinedCall}
    (h : Search passed place r) (h' : Search passed place r') : r = r' := by
  induction h with
  | ended => cases h' <;> rfl
  | repeated hmem =>
    cases h' with
    | ended | repeated => rfl
    | found hnew | onward hnew => exact absurd hmem hnew
  | found hnew hcall =>
    cases h' with
    | repeated hmem => exact absurd hmem hnew
    | found _ hcall' => exact hcall.symm.trans hcall'
    | onward _ hother =>
      rw [hcall] at hother
      cases hother
  | onward hnew hother _ ih =>
    cases h' with
    | repeated hmem => exact absurd hmem hnew
    | found _ hcall =>
      rw [hother] at hcall
      cases hcall
    | onward _ _ h' => exact ih h'

/-- **The search ends on every chain** with the call that the failure comes down to. -/
theorem search_iff {r : Option UndefinedCall} : Search [] [f] r ↔ r = f.undefinedCall? := by
  have hsearch : Search [] [f] f.undefinedCall? := search_of_remembers f remembers_nil
  refine ⟨fun h => h.unique hsearch, ?_⟩
  rintro rfl
  exact hsearch

/-! ## The whole walk -/

theorem callAt?_succ (place : List Failure) (steps : Nat) :
    callAt? place (steps + 1) = callAt? (advance place) steps := rfl

/-- The walk comes to the call that a failure comes down to, and to no other before it. -/
theorem exists_callAt? (f : Failure) (enclosing : List Failure)
    (h : f.undefinedCall? = some u) :
    ∃ k, callAt? (f :: enclosing) k = some u ∧ ∀ j < k, callAt? (f :: enclosing) j = none := by
  induction f using cause_induction generalizing enclosing with
  | step f ih =>
    cases hcall : f.call? with
    | some u' =>
      rw [undefinedCall?_of_call? hcall] at h
      exact ⟨0, hcall.trans h, fun j hj => absurd hj (Nat.not_lt_zero j)⟩
    | none =>
      rw [undefinedCall?_of_call?_eq_none hcall] at h
      cases hcause : f.cause with
      | none | enclosing =>
        rw [hcause] at h
        cases h
      | failure g =>
        rw [hcause] at h
        obtain ⟨k, hk, hbefore⟩ := ih g hcause (f :: enclosing) h
        rw [← advance_of_failure hcause] at hk hbefore
        simp only [← callAt?_succ] at hk hbefore
        refine ⟨k + 1, hk, fun j hj => ?_⟩
        cases j with
        | zero => exact hcall
        | succ j => exact hbefore j (Nat.lt_of_succ_lt_succ hj)

/-- What comes down to no call is followed by what comes down to none, also when the chain leads
back. -/
theorem undefinedCall?_advance (h : ∀ g ∈ place, g.undefinedCall? = none) :
    ∀ g ∈ advance place, g.undefinedCall? = none := by
  cases place with
  | nil => exact h
  | cons f enclosing =>
    have hf : f.undefinedCall? = none := h f List.mem_cons_self
    cases hcause : f.cause with
    | none =>
      rw [advance_of_none hcause]
      exact List.forall_mem_nil _
    | enclosing distance =>
      rw [advance_of_enclosing hcause]
      exact fun g hg => h g (List.mem_of_mem_drop hg)
    | failure g =>
      rw [advance_of_failure hcause]
      rw [undefinedCall?_of_call?_eq_none (call?_of_undefinedCall?_eq_none hf), hcause] at hf
      exact List.forall_mem_cons.mpr ⟨hf, h⟩

theorem callAt?_eq_none (h : ∀ g ∈ place, g.undefinedCall? = none) (k : Nat) :
    callAt? place k = none := by
  induction k generalizing place with
  | zero =>
    cases place with
    | nil => rfl
    | cons f enclosing => exact call?_of_undefinedCall?_eq_none (h f List.mem_cons_self)
  | succ k ih =>
    rw [callAt?_succ]
    exact ih (undefinedCall?_advance h)

/-- **No call is found** exactly if the walk never comes to one, however long it goes on. -/
theorem undefinedCall?_eq_none_iff_walk : f.undefinedCall? = none ↔ ∀ k, callAt? [f] k = none := by
  constructor
  · intro h
    exact callAt?_eq_none (List.forall_mem_singleton.mpr h)
  · intro h
    cases hcall : f.undefinedCall? with
    | none => rfl
    | some u =>
      obtain ⟨k, hk, -⟩ := exists_callAt? f [] hcall
      rw [h k] at hk
      cases hk

/-- **The call that is found** is the first that the walk comes to. -/
theorem undefinedCall?_eq_some_iff_walk : f.undefinedCall? = some u ↔
    ∃ k, callAt? [f] k = some u ∧ ∀ j < k, callAt? [f] j = none := by
  refine ⟨exists_callAt? f [], ?_⟩
  rintro ⟨k, hk, hbefore⟩
  cases hcall : f.undefinedCall? with
  | none =>
    rw [undefinedCall?_eq_none_iff_walk.mp hcall k] at hk
    cases hk
  | some u' =>
    obtain ⟨k', hk', hbefore'⟩ := exists_callAt? f [] hcall
    rcases Nat.lt_trichotomy k k' with hlt | rfl | hlt
    · rw [hbefore' k hlt] at hk
      cases hk
    · exact hk'.symm.trans hk
    · rw [hbefore k' hlt] at hk'
      cases hk'

/-- **What a failure is when it leaves the compilation of a module.**  A search along its causes
that remembers the places it has passed ends, whatever the chain; it finds the first call of an
unknown function that the walk comes to, and none exactly if the walk never comes to one.  Unless
the first frame of that call lies in the module, the failure is left as it is.  If it does, the
failure becomes the cause of one that says that the function is not available; this has the frame
as its origin, the place of the frame if that has one, and the frames of the failure if that
carries any. -/
theorem search_laws (f : Failure) (m : String) (l : Option Location) :
    (∀ r, Search [] [f] r ↔ r = f.undefinedCall?) ∧
    (∀ u, f.undefinedCall? = some u ↔
      ∃ k, callAt? [f] k = some u ∧ ∀ j < k, callAt? [f] j = none) ∧
    (f.undefinedCall? = none ↔ ∀ k, callAt? [f] k = none) ∧
    ((∀ u origin, f.undefinedCall? = some u → u.frames.head? = some origin → origin.module ≠ m) →
      f.normalize m l = f) ∧
    ∀ u origin, f.undefinedCall? = some u → u.frames.head? = some origin → origin.module = m →
      ∃ place frames, f.normalize m l
          = condition (.functionNotAvailable m u.pair) place frames (some origin) (.failure f) ∧
        (∀ own, origin.location = some own → place = some own) ∧
        (origin.location = none → place = l) ∧
        (∀ own, f.frames? = some own → frames = own) ∧
        (f.frames? = none → frames = u.frames) := by
  refine ⟨fun r => search_iff, fun u => undefinedCall?_eq_some_iff_walk,
    undefinedCall?_eq_none_iff_walk, fun hne => ?_, ?_⟩
  · cases hcall : f.undefinedCall? with
    | none =>
      refine normalize_of_none (fun u hu => ?_) m l
      rw [undefinedCall?_eq_some_iff.mpr hu] at hcall
      cases hcall
    | some u =>
      exact normalize_of_ne (undefinedCall?_eq_some_iff.mp hcall)
        (fun origin horigin => hne u origin hcall horigin) l
  · rintro u origin hcall horigin rfl
    refine ⟨_, _, normalize_of_origin (undefinedCall?_eq_some_iff.mp hcall) horigin l,
      fun own h => ?_, fun h => ?_, fun own h => ?_, fun h => ?_⟩
    · rw [h]
      rfl
    · rw [h]
      rfl
    · rw [h]
      rfl
    · rw [h]
      rfl

/-- An exception and a call that caused it, which has the exception as its cause: the walk goes
round, and the search ends with the call. -/
theorem search_laws_cyclic :
    let frame : Frame :=
      { module := "Sample", function := "run", arity := 0, location := some ⟨"lib/a.mod", 7⟩ }
    let caller : Frame := { module := "Sample", function := "main", arity := 0 }
    let f := exception .plain "boom" (some [caller])
      (.failure (undefinedFunction "Sample" ⟨"run", 0⟩ [frame] (.enclosing 1)))
    advance^[2] [f] = [f] ∧ Search [] [f] (some ⟨"Sample", ⟨"run", 0⟩, [frame]⟩) ∧
      f.normalize "Sample" none = condition (.functionNotAvailable "Sample" ⟨"run", 0⟩)
        (some ⟨"lib/a.mod", 7⟩) [caller] (some frame) (.failure f) := by
  intro frame caller f
  obtain ⟨hsearch, hfirst, -, -, hrewritten⟩ := search_laws f "Sample" none
  have hcall : f.undefinedCall? = some ⟨"Sample", ⟨"run", 0⟩, [frame]⟩ := by
    refine (hfirst _).mpr ⟨1, rfl, fun j hj => ?_⟩
    obtain rfl : j = 0 := Nat.lt_one_iff.mp hj
    rfl
  obtain ⟨place, frames, heq, hplace, -, hframes, -⟩ := hrewritten _ _ hcall rfl rfl
  rw [hplace _ rfl, hframes _ rfl] at heq
  exact ⟨rfl, (hsearch _).mpr hcall.symm, heq⟩

end Failure
end ModuleBuild
