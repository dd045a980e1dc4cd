import Mathlib.Data.List.Forall2

/-! # Computations that succeed

A computation made of steps succeeds exactly if every step does, and fails exactly if one of
them does.
-/
namespace ModuleBuild

variable {ε α β : Type} {x : Except ε α}

/-- Two steps succeed if the first does and the second does with its result. -/
theorem bind_eq_ok {f : α → Except ε β} {b : β} :
    x >>= f = .ok b ↔ ∃ a, x = .ok a ∧ f a = .ok b := by
  cases x with
  | error e => exact ⟨nofun, nofun⟩
  | ok a =>
    constructor
    · intro h
      exact ⟨a, rfl, h⟩
    · rintro ⟨a', ha, h⟩
      cases ha
      exact h

theorem map_eq_ok {f : α → β} {b : β} : x.map f = .ok b ↔ ∃ a, x = .ok a ∧ f a = b := by
  cases x with
  | error e => exact ⟨nofun, nofun⟩
  | ok a =>
    constructor
    · intro h
      cases h
      exact ⟨a, rfl, rfl⟩
    · rintro ⟨a', ha, h⟩
      cases ha
      cases h
      rfl

theorem mapError_eq_ok {ε' : Type} {f : ε → ε'} {a : α} : x.mapError f = .ok a ↔ x = .ok a := by
  cases x with
  | error e => exact iff_of_false nofun nofun
  | ok a' => exact ⟨fun h => by cases h; rfl, fun h => by cases h; rfl⟩

/-- Two steps fail if one of them does. -/
theorem bind_eq_error {f : α → Except ε β} {e : ε} :
    x >>= f = .error e ↔ x = .error e ∨ ∃ a, x = .ok a ∧ f a = .error e := by
  cases x with
  | error e' =>
    constructor
    · intro h
      cases h
      exact Or.inl rfl
    · rintro (h | ⟨a, ha, -⟩)
      · cases h
        rfl
      · cases ha
  | ok a =>
    constructor
    · exact fun h => Or.inr ⟨a, rfl, h⟩
    · rintro (h | ⟨a', ha, h⟩)
      · cases h
      · cases ha
        exact h

theorem map_eq_error {f : α → β} {e : ε} : x.map f = .error e ↔ x = .error e := by
  cases x with
  | error e' => exact ⟨fun h => by cases h; rfl, fun h => by cases h; rfl⟩
  | ok a => exact iff_of_false nofun nofun

/-- The results of a computation made for every item of a list are those of the items. -/
theorem mem_of_mapM_eq_ok {f : α → Except ε β} {l : List α} {bs : List β}
    (h : l.mapM f = .ok bs) :
    (∀ a ∈ l, ∃ b ∈ bs, f a = .ok b) ∧ ∀ b ∈ bs, ∃ a ∈ l, f a = .ok b := by
  induction l generalizing bs with
  | nil =>
    cases h
    exact ⟨nofun, nofun⟩
  | cons a rest ih =>
    rw [List.mapM_cons] at h
    obtain ⟨b, hb, h⟩ := bind_eq_ok.mp h
    obtain ⟨bs', hbs', h⟩ := bind_eq_ok.mp h
    cases h
    obtain ⟨hitems, hresults⟩ := ih hbs'
    constructor
    · intro a' ha'
      rcases List.mem_cons.mp ha' with rfl | ha'
      · exact ⟨b, List.mem_cons_self, hb⟩
      · obtain ⟨b', hb', heq⟩ := hitems a' ha'
        exact ⟨b', List.mem_cons_of_mem b hb', heq⟩
    · intro b' hb'
      rcases List.mem_cons.mp hb' with rfl | hb'
      · exact ⟨a, List.mem_cons_self, hb⟩
      · obtain ⟨a', ha', heq⟩ := hresults b' hb'
        exact ⟨a', List.mem_cons_of_mem a ha', heq⟩

/-! ## How a computation fails -/

/-- Whatever a computation fails with is of a kind. -/
structure FailsAs (kind : ε → Prop) (x : Except ε α) : Prop where
  kind_of_eq_error : ∀ e, x = .error e → kind e

section FailsAs

variable {ε' : Type} {kind : ε → Prop}

theorem failsAs_ok (a : α) : FailsAs kind (.ok a) := by
  constructor
  rintro _ ⟨⟩

theorem failsAs_error {e : ε} (h : kind e) : FailsAs kind (.error e : Except ε α) := by
  constructor
  rintro _ ⟨⟩
  exact h

theorem failsAs_bind {f : α → Except ε β} (hx : FailsAs kind x) (hf : ∀ a, FailsAs kind (f a)) :
    FailsAs kind (x >>= f) := by
  cases x with
  | error e => exact failsAs_error (hx.kind_of_eq_error e rfl)
  | ok a => exact hf a

theorem failsAs_mapM {f : α → Except ε β} (hf : ∀ a, FailsAs kind (f a)) (l : List α) :
    FailsAs kind (l.mapM f) := by
  induction l with
  | nil => exact failsAs_ok []
  | cons a rest ih =>
    rw [List.mapM_cons]
    exact failsAs_bind (hf a) fun _ => failsAs_bind ih fun _ => failsAs_ok _

theorem failsAs_mapError {f : ε → ε'} {kind' : ε' → Prop} (hx : FailsAs kind x)
    (hf : ∀ e, kind e → kind' (f e)) : FailsAs kind' (x.mapError f) := by
  cases x with
  | error e => exact failsAs_error (hf e (hx.kind_of_eq_error e rfl))
  | ok a => exact failsAs_ok a

end FailsAs

/-! ## Computations for the items of a list -/

theorem toOption_eq_some {a : α} : x.toOption = some a ↔ x = .ok a := by
  cases x with
  | error e => exact ⟨nofun, nofun⟩
  | ok a' =>
    constructor <;> intro h <;> cases h <;> rfl

theorem isOk_eq_true_iff : x.isOk = true ↔ ∃ a, x = .ok a := by
  cases x with
  | error e => exact iff_of_false nofun nofun
  | ok a => exact iff_of_true rfl ⟨a, rfl⟩

end ModuleBuild
