import ModuleBuild.Proofs.Registry.Operations

/-! # What one module's compilation leaves of a registry

Code that compiles a module changes the entry under its own ticket, and opens and
closes further modules.  Afterwards the same names are open under the same tickets,
the other entries are as they were, and the stores of the entries that were added are
gone (`ActedOn`).  Opening a module, acting on it and closing it changes no entry that
was there before (`of_opened_closed`): a compilation acts on nothing of its
caller's.
-/
namespace ModuleBuild

/-- Between the two registries only the entry under `own` was changed, and what was
opened was closed again. -/
structure Registry.ActedOn (own : Option Ticket) (r r' : Registry) : Prop where
  opened : r'.opened = r.opened
  length_le : r.entries.length ≤ r'.entries.length
  kept : ∀ t, t < r.entries.length → own ≠ some t → r'.find? t = r.find? t
  added : ∀ t e, r.entries.length ≤ t → own ≠ some t → r'.find? t = some e → e.HasNoStores

namespace Registry.ActedOn

theorem refl (own : Option Ticket) (r : Registry) : ActedOn own r r where
  opened := rfl
  length_le := Nat.le_refl _
  kept _ _ _ := rfl
  added t e ht _ he := by
    rw [find?, List.getElem?_eq_none ht] at he
    cases he

theorem trans {own : Option Ticket} {r₁ r₂ r₃ : Registry} (h₁ : ActedOn own r₁ r₂)
    (h₂ : ActedOn own r₂ r₃) : ActedOn own r₁ r₃ where
  opened := h₂.opened.trans h₁.opened
  length_le := Nat.le_trans h₁.length_le h₂.length_le
  kept t ht hne := by
    rw [h₂.kept t (Nat.lt_of_lt_of_le ht h₁.length_le) hne, h₁.kept t ht hne]
  added t e ht hne he := by
    -- an entry that was already there after the first part was not touched by the second
    by_cases hlt : t < r₂.entries.length
    · rw [h₂.kept t hlt hne] at he
      exact h₁.added t e ht hne he
    · exact h₂.added t e (Nat.le_of_not_lt hlt) hne he

/-- What acts on no entry acts on none but a given one. -/
theorem of_none {r r' : Registry} (h : ActedOn none r r') (own : Option Ticket) :
    ActedOn own r r' where
  opened := h.opened
  length_le := h.length_le
  kept t ht _ := h.kept t ht nofun
  added t e ht _ := h.added t e ht nofun

theorem update (r : Registry) (t : Ticket) (f : ModuleState → ModuleState) :
    ActedOn (some t) r (r.update t f) where
  opened := rfl
  length_le := Nat.le_of_eq (length_entries_update r t f).symm
  kept u _ hne := by rw [find?_update, if_neg fun h => hne (congrArg some h)]
  added u e hu _ he := by
    rw [find?, List.getElem?_eq_none (by rw [length_entries_update]; exact hu)] at he
    cases he

/-- What acts on an opened module's entry leaves it there, and the name open. -/
theorem own {r r₂ : Registry} {e : ModuleEntry}
    (hact : ActedOn (some r.entries.length) (r.add e) r₂) :
    r₂.opened.get? e.module = some r.entries.length ∧
      ∃ e', r₂.find? r.entries.length = some e' ∧ e'.module = e.module := by
  have hown : r₂.opened.get? e.module = some r.entries.length := by
    rw [hact.opened, opened_add, OrderedMap.get?_insert, if_pos rfl]
  exact ⟨hown, find?_of_opened hown⟩

/-- Closing the module that was opened last brings back the table of open names. -/
theorem opened_close {r r₂ : Registry} {e : ModuleEntry} (hname : r.opened.get? e.module = none)
    (hact : ActedOn (some r.entries.length) (r.add e) r₂) :
    (r₂.close r.entries.length).opened = r.opened := by
  obtain ⟨hown, e', he', hm⟩ := hact.own
  unfold close
  rw [he']
  simp only [hm, hown, if_true, opened_update]
  change r₂.opened.erase e.module = r.opened
  rw [hact.opened, opened_add, OrderedMap.erase_insert hname]

/-- **A module that is opened, acted on and closed** leaves nothing behind: the same
names are open, and no entry that was there before is changed. -/
theorem of_opened_closed {r r₂ : Registry} {e : ModuleEntry}
    (hname : r.opened.get? e.module = none)
    (hact : ActedOn (some r.entries.length) (r.add e) r₂) :
    ActedOn none r (r₂.close r.entries.length) := by
  have hlength : (r.add e).entries.length = r.entries.length + 1 := by simp [add]
  refine ⟨opened_close hname hact, ?_, ?_, ?_⟩
  · rw [length_entries_close]
    have := hact.length_le
    omega
  · intro t ht _
    -- an entry that was there before is neither closed nor touched
    have hne : r.entries.length ≠ t := Nat.ne_of_gt ht
    rw [find?_close, if_neg hne, hact.kept t (by omega) fun h => hne (Option.some.inj h),
      find?_add, if_neg hne.symm]
  · intro t e' ht _ he'
    rw [find?_close] at he'
    by_cases hown : r.entries.length = t
    · rw [if_pos hown] at he'
      obtain ⟨e₂, -, rfl⟩ := Option.map_eq_some_iff.mp he'
      exact e₂.hasNoStores_destroy
    · rw [if_neg hown] at he'
      exact hact.added t e' (by omega) (fun h => hown (Option.some.inj h)) he'

end Registry.ActedOn
end ModuleBuild
