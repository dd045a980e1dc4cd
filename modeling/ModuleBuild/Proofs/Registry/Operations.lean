import ModuleBuild.Registry

/-! # What opening and closing do to a registry

One law for each view of a registry — the open names and the entries under the
tickets — and for each operation.  Opening either fails or adds an entry under a
ticket that was never used (`openModule_ok_iff`); closing destroys the entry under
its ticket and no other (`find?_close`), and takes a name out of the table only if
it is open under that very ticket (`get?_opened_close`).
-/
namespace ModuleBuild

/-! ## Destroyed entries -/

/-- An entry whose stores are gone. -/
structure ModuleEntry.IsDestroyed (e : ModuleEntry) : Prop where
  attributes : e.attributes.table = none
  definitions : e.definitions.table = none
  docs : e.docs = .empty

/-- An entry whose attributes and definitions are gone, whatever its documentation. -/
structure ModuleEntry.HasNoStores (e : ModuleEntry) : Prop where
  attributes : e.attributes.table = none
  definitions : e.definitions.table = none

namespace ModuleEntry

theorem hasNoStores_destroy (e : ModuleEntry) : e.destroy.HasNoStores := ⟨rfl, rfl⟩

/-- Destroying an entry clears its documentation, unless that was added to an entry
destroyed before. -/
theorem isDestroyed_destroy {e : ModuleEntry}
    (h : e.attributes.isDestroyed = true → e.docs = .empty) : e.destroy.IsDestroyed where
  attributes := rfl
  definitions := rfl
  docs := by
    change (if e.attributes.isDestroyed then e.docs else .empty) = .empty
    split
    next hd => exact h hd
    next => rfl

theorem not_isDestroyed_new (m s : String) (l : Location) (d : Bool) :
    ¬ (new m s l d).IsDestroyed := fun h => nomatch h.attributes

end ModuleEntry

namespace Registry

/-! ## Changing an entry -/

@[simp] theorem opened_update (r : Registry) (t : Ticket) (f : ModuleState → ModuleState) :
    (r.update t f).opened = r.opened := rfl

@[simp] theorem length_entries_update (r : Registry) (t : Ticket)
    (f : ModuleState → ModuleState) :
    (r.update t f).entries.length = r.entries.length :=
  List.length_modify ..

theorem find?_update (r : Registry) (t u : Ticket) (f : ModuleState → ModuleState) :
    (r.update t f).find? u
      = if t = u then (r.find? u).map (ModuleEntry.change f) else r.find? u := by
  simp only [find?, update, List.getElem?_modify]
  by_cases h : t = u <;> simp [h]

/-! ## Opening -/

/-- An open name has an entry of that name. -/
theorem find?_of_opened {r : Registry} {m : String} {t : Ticket}
    (h : r.opened.get? m = some t) : ∃ e, r.find? t = some e ∧ e.module = m :=
  Option.map_eq_some_iff.mp (r.named m t h)

theorem lt_length_of_opened {r : Registry} {m : String} {t : Ticket}
    (h : r.opened.get? m = some t) : t < r.entries.length := by
  obtain ⟨e, he, -⟩ := find?_of_opened h
  exact (List.getElem?_eq_some_iff.mp he).1

theorem lookup_eq_none_iff (r : Registry) (m : String) :
    r.lookup m = none ↔ r.opened.get? m = none := by
  constructor
  · intro h
    cases hm : r.opened.get? m with
    | none => rfl
    | some t =>
      obtain ⟨e, he, -⟩ := find?_of_opened hm
      simp [lookup, hm, he] at h
  · intro h
    simp [lookup, h]

theorem isOpen_eq_isSome_lookup (r : Registry) (m : String) :
    r.isOpen m = (r.lookup m).isSome := by
  have hnone := lookup_eq_none_iff r m
  rw [isOpen, OrderedMap.contains]
  cases hm : r.opened.get? m <;> cases hl : r.lookup m <;> simp_all

@[simp] theorem opened_add (r : Registry) (e : ModuleEntry) :
    (r.add e).opened = r.opened.insert e.module r.entries.length := rfl

theorem find?_add (r : Registry) (e : ModuleEntry) (t : Ticket) :
    (r.add e).find? t = if t = r.entries.length then some e else r.find? t := by
  simp only [find?, add, List.getElem?_append]
  rcases Nat.lt_trichotomy t r.entries.length with h | h | h
  · rw [if_pos h, if_neg (Nat.ne_of_lt h)]
  · simp [h]
  · rw [if_neg (Nat.not_lt_of_gt h), if_neg (Nat.ne_of_gt h),
      List.getElem?_eq_none (Nat.le_of_lt h), List.getElem?_eq_none]
    simp only [List.length_cons, List.length_nil]
    omega

/-- **A module is opened** exactly if its name can be opened and is not open, and
then under the next ticket. -/
theorem openModule_ok_iff {r r' : Registry} {loaded : Option LoadedModule} {m s : String}
    {l : Location} {d : Bool} {t : Ticket} :
    (r.openModule loaded m s l d).2 = .ok (t, r') ↔
      refusal? m = none ∧ r.opened.get? m = none ∧ t = r.entries.length ∧
        r' = r.add (.new m s l d) := by
  unfold openModule enrol
  cases hr : refusal? m with
  | some c => simp
  | none =>
    rw [← lookup_eq_none_iff]
    cases hl : r.lookup m with
    | some e => simp
    | none => simp [eq_comm]

theorem isOpen_eq_false_iff (r : Registry) (m : String) :
    r.isOpen m = false ↔ r.opened.get? m = none := by
  simp [isOpen, OrderedMap.contains]

/-- Whether a module is opened does not depend on what is loaded. -/
theorem exists_openModule_ok_iff {r : Registry} {loaded : Option LoadedModule} {m s : String}
    {l : Location} {d : Bool} : (∃ a, (r.openModule loaded m s l d).2 = .ok a) ↔
      refusal? m = none ∧ r.isOpen m = false := by
  rw [isOpen_eq_false_iff]
  constructor
  · rintro ⟨a, ha⟩
    obtain ⟨hname, hnone, -⟩ := openModule_ok_iff.mp ha
    exact ⟨hname, hnone⟩
  · rintro ⟨hname, hnone⟩
    exact ⟨_, openModule_ok_iff.mpr ⟨hname, hnone, rfl, rfl⟩⟩

/-- What opening warns of is that the module is loaded. -/
theorem code_of_mem_openModule (r : Registry) {loaded : Option LoadedModule} {m s : String}
    {l : Location} {b : Bool} {d : Diagnostic} (h : d ∈ (r.openModule loaded m s l b).1) :
    d.code = .moduleRedefined := by
  unfold openModule at h
  split at h
  · cases h
  · obtain ⟨_, -, rfl⟩ := Option.map_eq_some_iff.mp h
    rfl

theorem refusal?_eq_none_iff (m : String) :
    refusal? m = none ↔ isValidModuleName m = true ∧ m ∉ reservedModules := by
  unfold refusal?
  cases isValidModuleName m <;> simp

/-- A name that can be opened is refused exactly if it is open, and the refusal
names the place where it was opened. -/
theorem openModule_error_iff {r : Registry} {loaded : Option LoadedModule} {m s : String}
    {l : Location} {d : Bool} {p : Problem} (hm : refusal? m = none) :
    (r.openModule loaded m s l d).2 = .error p ↔
      ∃ e, r.lookup m = some e ∧ p = ⟨.moduleBeingDefined m e.location, some l⟩ := by
  simp only [openModule, hm, enrol]
  cases hl : r.lookup m with
  | none => simp
  | some e => simp [eq_comm]

/-! ## Closing -/

theorem get?_opened_forget (r : Registry) (m n : String) :
    (r.forget m).opened.get? n = if m = n then none else r.opened.get? n :=
  OrderedMap.get?_erase ..

/-- **Closing forgets a name only if it is open under the ticket.** -/
theorem get?_opened_close (r : Registry) (t u : Ticket) (n : String) :
    (r.close t).opened.get? n = some u ↔ r.opened.get? n = some u ∧ u ≠ t := by
  unfold close
  cases ht : r.find? t with
  | none =>
    refine ⟨fun h => ⟨h, ?_⟩, fun h => h.1⟩
    rintro rfl
    obtain ⟨e, he, -⟩ := find?_of_opened h
    rw [ht] at he
    cases he
  | some e =>
    -- a name that is open under `t` is that of the entry under `t`
    have own : r.opened.get? n = some t → e.module = n := by
      intro h
      obtain ⟨e', he', hn⟩ := find?_of_opened h
      rw [ht] at he'
      cases he'
      exact hn
    by_cases hopen : r.opened.get? e.module = some t
    · simp only [hopen, if_true, opened_update, get?_opened_forget]
      by_cases hn : e.module = n
      · subst hn
        simp [hopen, eq_comm]
      · simp only [hn, if_false]
        exact ⟨fun h => ⟨h, fun hu => hn (own (hu ▸ h))⟩, fun h => h.1⟩
    · simp only [hopen, if_false, opened_update]
      refine ⟨fun h => ⟨h, ?_⟩, fun h => h.1⟩
      rintro rfl
      exact hopen (own h ▸ h)

/-- **Closing destroys the entry under its ticket and no other.** -/
theorem find?_close (r : Registry) (t u : Ticket) :
    (r.close t).find? u = if t = u then (r.find? u).map ModuleEntry.destroy else r.find? u := by
  unfold close
  cases ht : r.find? t with
  | none =>
    by_cases h : t = u
    · subst h
      simp [ht]
    · simp [h]
  | some e =>
    simp only [find?_update]
    by_cases hopen : r.opened.get? e.module = some t <;>
      · simp only [hopen, if_true, if_false]
        rfl

@[simp] theorem length_entries_close (r : Registry) (t : Ticket) :
    (r.close t).entries.length = r.entries.length := by
  unfold close
  cases r.find? t with
  | none => rfl
  | some e =>
    simp only [length_entries_update]
    split <;> rfl

/-- Registries are told apart by their open names and their entries. -/
theorem ext_of_find? {r r' : Registry} (hopened : r.opened = r'.opened)
    (hfind : ∀ t, r.find? t = r'.find? t) : r = r' := by
  cases r
  cases r'
  cases hopened
  cases List.ext_getElem? hfind
  rfl

/-- Changing an entry to what a function makes of its state is changing it by the
function. -/
theorem update_of_find? {r : Registry} {t : Ticket} {e : ModuleEntry}
    (h : r.find? t = some e) (f : ModuleState → ModuleState) :
    r.update t f = r.update t fun _ => f e.toModuleState := by
  refine ext_of_find? rfl fun u => ?_
  rw [find?_update, find?_update]
  by_cases hu : t = u
  · subst hu
    rw [if_pos rfl, if_pos rfl, h]
    rfl
  · rw [if_neg hu, if_neg hu]

/-- Nothing is changed under a ticket without an entry. -/
theorem update_of_find?_eq_none {r : Registry} {t : Ticket} (h : r.find? t = none)
    (f : ModuleState → ModuleState) : r.update t f = r := by
  refine ext_of_find? rfl fun u => ?_
  rw [find?_update]
  by_cases hu : t = u
  · rw [if_pos hu, ← hu, h]
    rfl
  · rw [if_neg hu]

/-- **Closing again does nothing.** -/
theorem close_close (r : Registry) (t : Ticket) : (r.close t).close t = r.close t := by
  have hclosed : ∀ n, (r.close t).opened.get? n ≠ some t := fun n h =>
    ((get?_opened_close r t t n).mp h).2 rfl
  refine ext_of_find? ?_ fun u => ?_
  · rw [close]
    cases (r.close t).find? t with
    | none => rfl
    | some e => simp [hclosed]
  · simp only [find?_close]
    by_cases h : t = u
    · simp [h, Function.comp_def]
    · simp [h]

end Registry
end ModuleBuild
