import ModuleBuild.Definition.Table
import ModuleBuild.Proofs.Sorting
import ModuleBuild.Proofs.Text.Units

/-! # The order of pairs

Pairs are linearly ordered, so a list of pairs in strictly ascending order is
determined by its members (`Ascending.ext`).  The sorted pairs of a kind are the pairs
of that kind among all definitions of a table in order.
-/
namespace ModuleBuild
namespace NameArity

instance : Std.TransCmp compare :=
  inferInstanceAs (Std.TransCmp
    (compareLex (compareOn fun p : NameArity => Text.units p.name) (compareOn arity)))

instance : Std.LawfulEqCmp compare where
  compare_self := Std.ReflCmp.compare_self
  eq_of_compare {p q} h := by
    obtain ⟨hname, harity⟩ := Ordering.then_eq_eq.mp h
    obtain ⟨n, k⟩ := p
    obtain ⟨n', k'⟩ := q
    obtain rfl : n = n' := Std.LawfulEqCmp.eq_of_compare hname
    obtain rfl : k = k' := Std.LawfulEqCmp.eq_of_compare harity
    rfl

theorem compare_self (p : NameArity) : compare p p = .eq := Std.ReflCmp.compare_self

theorem compare_swap (p q : NameArity) : (compare p q).swap = compare q p :=
  Std.OrientedCmp.eq_swap.symm

/-- In order, and each pair once. -/
def Ascending (l : List NameArity) : Prop := l.Pairwise fun p q => compare p q = .lt

theorem Ascending.nodup {l : List NameArity} (h : Ascending l) : l.Nodup := by
  refine h.imp ?_
  rintro p q hlt rfl
  rw [compare_self] at hlt
  cases hlt

/-- Lists in ascending order with the same members are equal. -/
theorem Ascending.ext {l l' : List NameArity} (h : Ascending l) (h' : Ascending l')
    (hmem : ∀ p, p ∈ l ↔ p ∈ l') : l = l' := by
  have hperm : l.Perm l' := (List.perm_ext_iff_of_nodup h.nodup h'.nodup).mpr hmem
  refine hperm.eq_of_pairwise ?_ h h'
  intro p q _ _ hpq hqp
  rw [← compare_swap, hqp] at hpq
  cases hpq

section Sorting

variable {α : Type} (pair : α → NameArity) (l : List α)

theorem perm_sortBy : (sortBy pair l).Perm l := List.mergeSort_perm _ _

/-- Sorting things with different pairs puts their pairs in ascending order. -/
theorem ascending_map_sortBy (h : (l.map pair).Nodup) : Ascending ((sortBy pair l).map pair) :=
  Sorting.pairwise_lt_mergeSort compare pair l h

/-- Things with pairs in ascending order are sorted already. -/
theorem sortBy_of_ascending (h : Ascending (l.map pair)) : sortBy pair l = l := by
  refine List.mergeSort_of_pairwise ((List.pairwise_map.mp h).imp ?_)
  intro a b hlt
  rw [hlt]
  rfl

end Sorting

theorem ascending_sorted (l : List NameArity) : Ascending (sorted l) := by
  have h := ascending_map_sortBy id l.eraseDups (by rw [List.map_id]; exact Sorting.nodup_eraseDups l)
  rwa [List.map_id] at h

@[simp] theorem mem_sorted {p : NameArity} {l : List NameArity} : p ∈ sorted l ↔ p ∈ l :=
  (perm_sortBy id l.eraseDups).mem_iff.trans List.mem_eraseDups

/-- Pairs in ascending order are sorted already. -/
theorem sorted_of_ascending {l : List NameArity} (h : Ascending l) : sorted l = l :=
  (ascending_sorted l).ext h fun _ => mem_sorted

instance (l : List NameArity) : Decidable (Ascending l) :=
  inferInstanceAs (Decidable (l.Pairwise _))

end NameArity

namespace DefinitionTable

open NameArity

variable {t : DefinitionTable}

/-- The pairs of the definitions are the keys they stand under. -/
theorem map_pair_values (t : DefinitionTable) :
    t.definitions.values.map Definition.pair = t.definitions.keys := by
  rw [OrderedMap.values, OrderedMap.keys, List.map_map]
  exact List.map_congr_left t.keyed

/-- The definitions in order are in ascending order of their pairs. -/
theorem ascending_all (t : DefinitionTable) : Ascending (t.summary.all.map Definition.pair) :=
  ascending_map_sortBy _ _ (map_pair_values t ▸ t.definitions.nodup)

theorem mem_all_iff_mem_values {d : Definition} :
    d ∈ t.summary.all ↔ d ∈ t.definitions.values :=
  (perm_sortBy Definition.pair t.definitions.values).mem_iff

/-- All definitions are those that are found under their pairs. -/
theorem mem_all_iff {d : Definition} : d ∈ t.summary.all ↔ t.get? d.pair = some d := by
  rw [mem_all_iff_mem_values, get?, ← OrderedMap.mem_entries_iff]
  constructor
  · intro hd
    obtain ⟨e, he, rfl⟩ := List.mem_map.mp hd
    rwa [t.keyed e he]
  · intro hd
    exact List.mem_map.mpr ⟨_, hd, rfl⟩

theorem mem_pairsOf {k : DefinitionKind} {p : NameArity} :
    p ∈ t.pairsOf k ↔ ∃ d ∈ t.summary.all, d.kind = k ∧ d.pair = p := by
  simp [pairsOf, mem_all_iff_mem_values, and_assoc]

/-- The sorted pairs of a kind are those of the definitions of that kind, in order. -/
theorem sorted_pairsOf (t : DefinitionTable) (k : DefinitionKind) :
    sorted (t.pairsOf k) = (t.summary.all.filter fun d => d.kind = k).map Definition.pair := by
  have hascending :
      Ascending ((t.summary.all.filter fun d => d.kind = k).map Definition.pair) :=
    (ascending_all t).sublist (List.filter_sublist.map _)
  apply (ascending_sorted _).ext hascending
  intro p
  rw [mem_sorted, mem_pairsOf]
  simp [and_assoc]

end DefinitionTable
end ModuleBuild
