import Mathlib.Data.List.Chain
import Mathlib.Data.List.Forall2
import ModuleBuild.OrderedMap

/-! # Relations of results, of lists and of maps

Relations of errors and of values extend to computations that end in the same way (`EndAlike`),
and those of values to maps with the same keys in the same order (`OrderedMap.Related`).  What
two runs of one program make of related inputs is said in these terms.
-/
namespace ModuleBuild

/-! ## Results -/

section Results

variable {ε ε' α α' β β' : Type}

/-- Two computations end alike: both with related errors or both with related results. -/
inductive EndAlike (E : ε → ε' → Prop) (R : α → α' → Prop) : Except ε α → Except ε' α' → Prop where
  | error {e : ε} {e' : ε'} (h : E e e') : EndAlike E R (.error e) (.error e')
  | ok {a : α} {a' : α'} (h : R a a') : EndAlike E R (.ok a) (.ok a')

namespace EndAlike

variable {E : ε → ε' → Prop} {R : α → α' → Prop} {S : β → β' → Prop}

/-- A computation ends as itself. -/
theorem refl {E : ε → ε → Prop} {R : α → α → Prop} (hE : ∀ e, E e e) (hR : ∀ a, R a a)
    (x : Except ε α) : EndAlike E R x x := by
  cases x with
  | error e => exact .error (hE e)
  | ok a => exact .ok (hR a)

theorem imp {E' : ε → ε' → Prop} {R' : α → α' → Prop} {x : Except ε α} {x' : Except ε' α'}
    (h : EndAlike E R x x') (hE : ∀ e e', E e e' → E' e e') (hR : ∀ a a', R a a' → R' a a') :
    EndAlike E' R' x x' := by
  cases h with
  | error h => exact .error (hE _ _ h)
  | ok h => exact .ok (hR _ _ h)

theorem bind {x : Except ε α} {x' : Except ε' α'} {f : α → Except ε β} {f' : α' → Except ε' β'}
    (hx : EndAlike E R x x') (hf : ∀ a a', R a a' → EndAlike E S (f a) (f' a')) :
    EndAlike E S (x >>= f) (x' >>= f') := by
  cases hx with
  | error h => exact .error h
  | ok h => exact hf _ _ h

end EndAlike
end Results

/-! ## Lists -/

section Lists

variable {α β : Type}

/-- If every item is related to something, the list is related to a list. -/
theorem exists_forall₂ {R : α → β → Prop} {as : List α} (h : ∀ a ∈ as, ∃ b, R a b) :
    ∃ bs, List.Forall₂ R as bs := by
  induction as with
  | nil => exact ⟨[], .nil⟩
  | cons a rest ih =>
    obtain ⟨b, hb⟩ := h a List.mem_cons_self
    obtain ⟨bs, hbs⟩ := ih fun a' ha' => h a' (List.mem_cons_of_mem a ha')
    exact ⟨b :: bs, .cons hb hbs⟩

/-- Every item has a counterpart in a list of the same length. -/
theorem exists_mem_zip {as : List α} {bs : List β} (h : as.length = bs.length) {a : α}
    (ha : a ∈ as) : ∃ b, (a, b) ∈ as.zip bs := by
  obtain ⟨m, hm, rfl⟩ := List.mem_iff_getElem.mp ha
  refine ⟨bs[m], ?_⟩
  rw [← List.getElem_zip (i := m) (h := by simp; omega)]
  exact List.getElem_mem _

/-- Mapping changes no list but one with an item that it changes. -/
theorem map_eq_self_iff {f : α → α} {l : List α} :
    l.map f = l ↔ ∀ a ∈ l, f a = a := by
  have hid : l.map f = l ↔ l.map f = l.map id := by rw [List.map_id]
  rw [hid, List.map_inj_left]
  rfl

/-- A list that is mapped and filtered is left as it is only if no item is changed or left out. -/
theorem filter_map_eq_self_iff {f : α → α} {keep : α → Bool} {l : List α} :
    (l.map f).filter keep = l ↔ (∀ a ∈ l, f a = a) ∧ ∀ a ∈ l, keep a = true := by
  constructor
  · intro h
    have hlength : ((l.map f).filter keep).length = (l.map f).length := by
      rw [h, List.length_map]
    have hall : ∀ b ∈ l.map f, keep b = true := List.length_filter_eq_length_iff.mp hlength
    have hmap : l.map f = l := by rwa [List.filter_eq_self.mpr hall] at h
    rw [hmap] at hall
    exact ⟨map_eq_self_iff.mp hmap, hall⟩
  · rintro ⟨hmap, hkeep⟩
    rw [map_eq_self_iff.mpr hmap, List.filter_eq_self.mpr hkeep]

end Lists

/-! ## Maps -/

variable {κ α β : Type} [DecidableEq κ] {R : α → β → Prop}

/-- Entries of one key with related values. -/
def Entry.Related (R : α → β → Prop) (e : κ × α) (e' : κ × β) : Prop :=
  e'.1 = e.1 ∧ R e.2 e'.2

/-- Maps with the same keys in the same order, and with related values. -/
def OrderedMap.Related (R : α → β → Prop) (m : OrderedMap κ α) (m' : OrderedMap κ β) : Prop :=
  List.Forall₂ (Entry.Related R) m.entries m'.entries

namespace Entries

variable {l : List (κ × α)} {l' : List (κ × β)} (h : List.Forall₂ (Entry.Related R) l l')
include h

theorem related_get? (k : κ) : Option.Rel R (get? k l) (get? k l') := by
  induction h with
  | nil => exact .none
  | @cons e e' _ _ hhead _ ih =>
    obtain ⟨n, v⟩ := e
    obtain ⟨n', v'⟩ := e'
    obtain ⟨rfl, hv⟩ : n' = n ∧ R v v' := hhead
    by_cases hn : n' = k
    · rw [get?, get?, if_pos hn, if_pos hn]
      exact .some hv
    · rw [get?, get?, if_neg hn, if_neg hn]
      exact ih

theorem related_insert (k : κ) {v : α} {v' : β} (hv : R v v') :
    List.Forall₂ (Entry.Related R) (insert k v l) (insert k v' l') := by
  induction h with
  | nil => exact .cons ⟨rfl, hv⟩ .nil
  | @cons e e' _ _ hhead htail ih =>
    obtain ⟨n, w⟩ := e
    obtain ⟨n', w'⟩ := e'
    obtain ⟨rfl, hw⟩ : n' = n ∧ R w w' := hhead
    by_cases hn : n' = k
    · rw [insert, insert, if_pos hn, if_pos hn]
      exact .cons ⟨rfl, hv⟩ htail
    · rw [insert, insert, if_neg hn, if_neg hn]
      exact .cons ⟨rfl, hw⟩ ih

end Entries

namespace OrderedMap.Related

omit [DecidableEq κ] in
theorem refl {R : α → α → Prop} (hR : ∀ a, R a a) (m : OrderedMap κ α) : m.Related R m :=
  List.forall₂_same.mpr fun e _ => ⟨rfl, hR e.2⟩

variable {m : OrderedMap κ α} {m' : OrderedMap κ β} (h : m.Related R m')
include h

theorem get? (k : κ) : Option.Rel R (m.get? k) (m'.get? k) := Entries.related_get? h k

theorem insert (k : κ) {v : α} {v' : β} (hv : R v v') :
    (m.insert k v).Related R (m'.insert k v') :=
  Entries.related_insert h k hv

omit [DecidableEq κ] in
theorem values : List.Forall₂ R m.values m'.values := by
  rw [OrderedMap.values, OrderedMap.values, List.forall₂_map_left_iff, List.forall₂_map_right_iff]
  exact h.imp fun _ _ he => he.2

end OrderedMap.Related
end ModuleBuild
