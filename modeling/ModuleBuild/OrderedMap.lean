/-! # Insertion-ordered maps

An `OrderedMap` keeps its entries in the order in which their keys were first
inserted: writing to a present key replaces the value in place, writing to an
absent one appends, and erasing forgets the place.  The view is `entries`; no key
occurs in it twice.
-/
namespace ModuleBuild

variable {κ α : Type} [DecidableEq κ]

namespace Entries

/-- The value at a key of an entry list. -/
def get? (k : κ) : List (κ × α) → Option α
  | [] => none
  | (k', v) :: rest => if k' = k then some v else get? k rest

/-- Replace the value at a key in place, or append the entry. -/
def insert (k : κ) (v : α) : List (κ × α) → List (κ × α)
  | [] => [(k, v)]
  | (k', v') :: rest => if k' = k then (k, v) :: rest else (k', v') :: insert k v rest

/-- Drop the entry at a key. -/
def erase (k : κ) (l : List (κ × α)) : List (κ × α) := l.filter fun e => e.1 ≠ k

theorem keys_insert_of_mem {k : κ} {v : α} {l : List (κ × α)} (h : k ∈ l.map Prod.fst) :
    (insert k v l).map Prod.fst = l.map Prod.fst := by
  induction l with
  | nil => simp at h
  | cons e rest ih =>
    obtain ⟨k', v'⟩ := e
    by_cases hk : k' = k
    · simp [insert, hk]
    · have : k ∈ rest.map Prod.fst := by
        simpa [Ne.symm hk, eq_comm] using h
      simp [insert, hk, ih this]

theorem keys_insert_of_not_mem {k : κ} {v : α} {l : List (κ × α)}
    (h : k ∉ l.map Prod.fst) : insert k v l = l ++ [(k, v)] := by
  induction l with
  | nil => rfl
  | cons e rest ih =>
    obtain ⟨k', v'⟩ := e
    simp only [List.map_cons, List.mem_cons, not_or] at h
    simp [insert, Ne.symm h.1, ih h.2]

theorem nodup_insert {k : κ} {v : α} {l : List (κ × α)} (h : (l.map Prod.fst).Nodup) :
    ((insert k v l).map Prod.fst).Nodup := by
  by_cases hk : k ∈ l.map Prod.fst
  · rwa [keys_insert_of_mem hk]
  · rw [keys_insert_of_not_mem hk]
    simp only [List.map_append, List.map_cons, List.map_nil]
    rw [List.nodup_append]
    refine ⟨h, by simp, ?_⟩
    intro a ha b hb
    rw [List.mem_singleton.1 hb]
    rintro rfl
    exact hk ha

theorem nodup_erase {k : κ} {l : List (κ × α)} (h : (l.map Prod.fst).Nodup) :
    ((erase k l).map Prod.fst).Nodup :=
  List.Nodup.sublist (List.Sublist.map _ List.filter_sublist) h

@[simp] theorem get?_insert (k k' : κ) (v : α) (l : List (κ × α)) :
    get? k' (insert k v l) = if k = k' then some v else get? k' l := by
  induction l with
  | nil => rfl
  | cons e rest ih =>
    obtain ⟨n, w⟩ := e
    by_cases hn : n = k
    · subst hn
      by_cases hk : n = k' <;> simp [insert, get?, hk]
    · by_cases hk : n = k'
      · subst hk
        simp [insert, get?, hn, Ne.symm hn]
      · simp [insert, get?, hn, hk, ih]

@[simp] theorem get?_erase (k k' : κ) (l : List (κ × α)) :
    get? k' (erase k l) = if k = k' then none else get? k' l := by
  induction l with
  | nil => simp [erase, get?]
  | cons e rest ih =>
    obtain ⟨n, w⟩ := e
    by_cases hn : n = k
    · rw [show erase k ((n, w) :: rest) = erase k rest by simp [erase, hn], ih]
      by_cases hk : k = k' <;> simp [get?, hn, hk]
    · rw [show erase k ((n, w) :: rest) = (n, w) :: erase k rest by simp [erase, hn]]
      by_cases hk : n = k'
      · subst hk
        simp [get?, Ne.symm hn]
      · simp [get?, hk, ih]

theorem mem_of_get? {k : κ} {v : α} {l : List (κ × α)} (h : get? k l = some v) :
    (k, v) ∈ l := by
  induction l with
  | nil => cases h
  | cons e rest ih =>
    obtain ⟨n, w⟩ := e
    by_cases hn : n = k
    · subst hn
      simp only [get?, if_true, Option.some.injEq] at h
      subst h
      exact List.mem_cons_self
    · simp only [get?, hn, if_false] at h
      exact List.mem_cons_of_mem _ (ih h)

theorem get?_of_mem {k : κ} {v : α} {l : List (κ × α)} (hnodup : (l.map Prod.fst).Nodup)
    (h : (k, v) ∈ l) : get? k l = some v := by
  induction l with
  | nil => cases h
  | cons e rest ih =>
    obtain ⟨n, w⟩ := e
    obtain ⟨hfirst, hrest⟩ := List.nodup_cons.mp hnodup
    rcases List.mem_cons.mp h with heq | hmem
    · cases heq
      rw [get?, if_pos rfl]
    · have hne : n ≠ k := by
        rintro rfl
        exact hfirst (List.mem_map.mpr ⟨_, hmem, rfl⟩)
      rw [get?, if_neg hne, ih hrest hmem]

theorem not_mem_keys_of_get? {k : κ} {l : List (κ × α)} (h : get? k l = none) :
    k ∉ l.map Prod.fst := by
  induction l with
  | nil => simp
  | cons e rest ih =>
    obtain ⟨n, w⟩ := e
    by_cases hn : n = k
    · simp [get?, hn] at h
    · simp only [get?, hn, if_false] at h
      simpa [Ne.symm hn] using ih h

theorem mem_insert {k : κ} {v : α} {l : List (κ × α)} {e : κ × α} (h : e ∈ insert k v l) :
    e = (k, v) ∨ e ∈ l := by
  induction l with
  | nil => exact Or.inl (List.mem_singleton.mp h)
  | cons e' rest ih =>
    obtain ⟨n, w⟩ := e'
    by_cases hn : n = k
    · simp only [insert, hn, if_true, List.mem_cons] at h
      exact h.imp_right (List.mem_cons_of_mem _)
    · simp only [insert, hn, if_false, List.mem_cons] at h
      rcases h with h | h
      · exact Or.inr (h ▸ List.mem_cons_self)
      · exact (ih h).imp_right (List.mem_cons_of_mem _)

/-- A new entry stands at the end, so erasing it gives back the list. -/
theorem erase_insert {k : κ} {v : α} {l : List (κ × α)} (h : get? k l = none) :
    erase k (insert k v l) = l := by
  have hk := not_mem_keys_of_get? h
  rw [keys_insert_of_not_mem hk]
  have hne : l.filter (fun e => decide (e.1 ≠ k)) = l := by
    refine List.filter_eq_self.mpr fun e he => decide_eq_true fun heq => ?_
    exact hk (List.mem_map.mpr ⟨e, he, heq⟩)
  rw [erase, List.filter_append, hne]
  simp

end Entries

/-- A map whose entries stand in the order of their first insertion. -/
structure OrderedMap (κ α : Type) where
  entries : List (κ × α)
  nodup : (entries.map Prod.fst).Nodup

namespace OrderedMap

/-- The map without entries. -/
def empty : OrderedMap κ α := ⟨[], by simp⟩

instance : Inhabited (OrderedMap κ α) := ⟨empty⟩

/-- The value at a key. -/
def get? (m : OrderedMap κ α) (k : κ) : Option α := Entries.get? k m.entries

/-- Whether a key is present. -/
def contains (m : OrderedMap κ α) (k : κ) : Bool := (m.get? k).isSome

/-- Write a value: in place when the key is present, at the end when it is not. -/
def insert (m : OrderedMap κ α) (k : κ) (v : α) : OrderedMap κ α :=
  ⟨Entries.insert k v m.entries, Entries.nodup_insert m.nodup⟩

/-- Write a value unless the key is present. -/
def insertNew (m : OrderedMap κ α) (k : κ) (v : α) : OrderedMap κ α :=
  if m.contains k then m else m.insert k v

/-- Drop a key. -/
def erase (m : OrderedMap κ α) (k : κ) : OrderedMap κ α :=
  ⟨Entries.erase k m.entries, Entries.nodup_erase m.nodup⟩

/-- The keys in order. -/
def keys (m : OrderedMap κ α) : List κ := m.entries.map Prod.fst

/-- The values in order of their keys. -/
def values (m : OrderedMap κ α) : List α := m.entries.map Prod.snd

/-- How many entries there are. -/
def size (m : OrderedMap κ α) : Nat := m.entries.length

omit [DecidableEq κ] in
@[ext] theorem ext {m m' : OrderedMap κ α} (h : m.entries = m'.entries) : m = m' := by
  cases m
  cases m'
  cases h
  rfl

@[simp] theorem get?_empty (k : κ) : (empty : OrderedMap κ α).get? k = none := rfl

@[simp] theorem get?_insert (m : OrderedMap κ α) (k k' : κ) (v : α) :
    (m.insert k v).get? k' = if k = k' then some v else m.get? k' :=
  Entries.get?_insert k k' v m.entries

@[simp] theorem get?_erase (m : OrderedMap κ α) (k k' : κ) :
    (m.erase k).get? k' = if k = k' then none else m.get? k' :=
  Entries.get?_erase k k' m.entries

theorem mem_of_get? {m : OrderedMap κ α} {k : κ} {v : α} (h : m.get? k = some v) :
    (k, v) ∈ m.entries :=
  Entries.mem_of_get? h

/-- The entries are the keys with the values that stand at them. -/
theorem mem_entries_iff {m : OrderedMap κ α} {k : κ} {v : α} :
    (k, v) ∈ m.entries ↔ m.get? k = some v :=
  ⟨Entries.get?_of_mem m.nodup, mem_of_get?⟩

theorem mem_keys_iff {m : OrderedMap κ α} {k : κ} : k ∈ m.keys ↔ ∃ v, m.get? k = some v := by
  constructor
  · intro h
    obtain ⟨⟨_, v⟩, he, rfl⟩ := List.mem_map.mp h
    exact ⟨v, mem_entries_iff.mp he⟩
  · rintro ⟨v, h⟩
    exact List.mem_map.mpr ⟨(k, v), mem_of_get? h, rfl⟩

theorem keys_insert (m : OrderedMap κ α) (k : κ) (v : α) :
    (m.insert k v).keys = if k ∈ m.keys then m.keys else m.keys ++ [k] := by
  split
  · next h => exact Entries.keys_insert_of_mem h
  · next h =>
    have happend := congrArg (List.map Prod.fst) (Entries.keys_insert_of_not_mem (v := v) h)
    rwa [List.map_append] at happend

theorem keys_erase (m : OrderedMap κ α) (k : κ) :
    (m.erase k).keys = m.keys.filter (· ≠ k) := by
  rw [keys, keys, List.filter_map]
  rfl

/-- Erasing a key that has just been added gives back the map. -/
theorem erase_insert {m : OrderedMap κ α} {k : κ} {v : α} (h : m.get? k = none) :
    (m.insert k v).erase k = m :=
  ext (Entries.erase_insert h)

end OrderedMap
end ModuleBuild
