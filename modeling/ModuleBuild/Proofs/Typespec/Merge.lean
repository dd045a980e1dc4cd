import Mathlib.Data.List.Induction
import Mathlib.Data.Int.Order.Basic
import Mathlib.Order.MinMax
import ModuleBuild.Proofs.Definition.Order
import ModuleBuild.Typespec.Declaration

/-! # Merged declarations

Merging collects declarations by what they declare.  The collection holds for each thing what
its declarations come to in order (`get?_collected`): their clauses one after the other, at
the least of their lines (`isJoined_of_joined`).  So the merged declarations are determined by
the list that is merged, and no two declare the same.
-/
namespace ModuleBuild

/-- What a declaration declares: a spec or a callback of a pair. -/
def SpecDeclaration.key (d : SpecDeclaration) : Bool × NameArity := (d.isCallback, d.pair)

namespace Typespec

/-- Declarations of one thing as one. -/
def joined : List SpecDeclaration → Option SpecDeclaration
  | [] => none
  | d :: ds => some (ds.foldl join d)

/-- The clauses of a declaration are those of others in order, and its line is the least of
theirs. -/
structure IsJoined (d : SpecDeclaration) (ds : List SpecDeclaration) : Prop where
  clauses : d.clauses = ds.flatMap SpecDeclaration.clauses
  line_mem : ∃ e ∈ ds, e.line = d.line
  line_le : ∀ e ∈ ds, d.line ≤ e.line
  key : ∃ e ∈ ds, e.key = d.key

theorem joined_append_singleton (ds : List SpecDeclaration) (d : SpecDeclaration) :
    joined (ds ++ [d]) = some (((joined ds).map fun old => join old d).getD d) := by
  cases ds with
  | nil => rfl
  | cons first rest => simp [joined]

theorem joined_eq_none_iff {ds : List SpecDeclaration} : joined ds = none ↔ ds = [] := by
  cases ds <;> simp [joined]

theorem IsJoined.singleton (d : SpecDeclaration) : IsJoined d [d] :=
  ⟨by simp, ⟨d, by simp⟩, by simp, ⟨d, by simp⟩⟩

theorem IsJoined.join {d e : SpecDeclaration} {ds : List SpecDeclaration} (h : IsJoined d ds) :
    IsJoined (Typespec.join d e) (ds ++ [e]) := by
  obtain ⟨hclauses, ⟨e₁, he₁, hline⟩, hle, ⟨e₂, he₂, hkey⟩⟩ := h
  refine ⟨by simp [Typespec.join, hclauses], ?_, ?_, ⟨e₂, List.mem_append_left _ he₂, hkey⟩⟩
  · rcases min_choice d.line e.line with hmin | hmin
    · exact ⟨e₁, List.mem_append_left _ he₁, hline.trans hmin.symm⟩
    · exact ⟨e, by simp, hmin.symm⟩
  · intro e' he'
    rcases List.mem_append.mp he' with he' | he'
    · exact (min_le_left _ _).trans (hle e' he')
    · rw [List.mem_singleton.mp he']
      exact min_le_right _ _

/-- What declarations come to has all their clauses and the least of their lines. -/
theorem isJoined_of_joined {ds : List SpecDeclaration} {d : SpecDeclaration}
    (h : joined ds = some d) : IsJoined d ds := by
  induction ds using List.reverseRecOn generalizing d with
  | nil => cases h
  | append_singleton ds e ih =>
    rw [joined_append_singleton] at h
    cases hold : joined ds with
    | none =>
      rw [hold] at h
      obtain rfl := joined_eq_none_iff.mp hold
      cases h
      exact .singleton e
    | some old =>
      rw [hold] at h
      cases h
      exact (ih hold).join

section Collecting

variable (ds : List SpecDeclaration)

/-- The declarations collected by what they declare. -/
def collected : OrderedMap (Bool × NameArity) SpecDeclaration := ds.foldl collect .empty

theorem get?_collect (m : OrderedMap (Bool × NameArity) SpecDeclaration) (d : SpecDeclaration)
    (k : Bool × NameArity) : (collect m d).get? k
      = if d.key = k then some (((m.get? k).map fun old => join old d).getD d) else m.get? k := by
  rw [collect, OrderedMap.get?_insert]
  by_cases hk : d.key = k
  · subst hk
    rfl
  · exact (if_neg hk).trans (if_neg hk).symm

/-- What is collected for a thing is what its declarations come to. -/
theorem get?_collected (k : Bool × NameArity) :
    (collected ds).get? k = joined (ds.filter fun d => d.key = k) := by
  induction ds using List.reverseRecOn with
  | nil => rfl
  | append_singleton ds d ih =>
    have hstep : collected (ds ++ [d]) = collect (collected ds) d := by simp [collected]
    rw [hstep, get?_collect, List.filter_append, ih]
    by_cases hk : d.key = k
    · rw [if_pos hk, List.filter_cons_of_pos (by simpa using hk), List.filter_nil,
        joined_append_singleton]
    · rw [if_neg hk, List.filter_cons_of_neg (by simpa using hk), List.filter_nil, List.append_nil]

theorem key_of_get?_collected {k : Bool × NameArity} {d : SpecDeclaration}
    (h : (collected ds).get? k = some d) : d.key = k := by
  rw [get?_collected] at h
  obtain ⟨e, he, hkey⟩ := (isJoined_of_joined h).key
  rw [← hkey]
  simpa using (List.mem_filter.mp he).2

/-- Every collected declaration stands under what it declares. -/
theorem map_key_collected :
    (collected ds).values.map SpecDeclaration.key = (collected ds).keys := by
  rw [OrderedMap.values, OrderedMap.keys, List.map_map]
  refine List.map_congr_left fun e he => ?_
  exact key_of_get?_collected ds (OrderedMap.mem_entries_iff.mp he)

/-- The merged declarations are what the declarations of each thing come to. -/
theorem mem_mergeSpecs {d : SpecDeclaration} :
    d ∈ mergeSpecs ds ↔ joined (ds.filter fun e => e.key = d.key) = some d := by
  rw [mergeSpecs, (NameArity.perm_sortBy _ _).mem_iff, ← get?_collected]
  change d ∈ (collected ds).values ↔ _
  rw [← OrderedMap.mem_entries_iff]
  constructor
  · intro hd
    obtain ⟨e, he, rfl⟩ := List.mem_map.mp hd
    rwa [key_of_get?_collected ds (OrderedMap.mem_entries_iff.mp he)]
  · intro hd
    exact List.mem_map.mpr ⟨_, hd, rfl⟩

/-- No two merged declarations declare the same. -/
theorem nodup_keys_mergeSpecs : ((mergeSpecs ds).map SpecDeclaration.key).Nodup := by
  refine ((NameArity.perm_sortBy _ _).map _).nodup_iff.mpr ?_
  exact map_key_collected ds ▸ (collected ds).nodup

variable {ds}

/-- What is declared has a merged declaration. -/
theorem exists_mem_mergeSpecs_of_mem {e : SpecDeclaration} (he : e ∈ ds) :
    ∃ d ∈ mergeSpecs ds, d.key = e.key := by
  have hmem : e ∈ ds.filter fun d => d.key = e.key := List.mem_filter.mpr ⟨he, decide_eq_true rfl⟩
  cases hd : joined (ds.filter fun d => d.key = e.key) with
  | none =>
    rw [joined_eq_none_iff.mp hd] at hmem
    cases hmem
  | some d =>
    obtain ⟨e', he', hkey⟩ := (isJoined_of_joined hd).key
    have hkey : d.key = e.key := hkey.symm.trans (of_decide_eq_true (List.mem_filter.mp he').2)
    exact ⟨d, (mem_mergeSpecs ds).mpr (by rw [hkey, hd]), hkey⟩

/-- Declarations of one kind are merged into declarations of different pairs. -/
theorem nodup_pairs_mergeSpecs {isCallback : Bool} (h : ∀ d ∈ ds, d.isCallback = isCallback) :
    ((mergeSpecs ds).map SpecDeclaration.pair).Nodup := by
  have hkeys := nodup_keys_mergeSpecs ds
  have hpairs : (mergeSpecs ds).map SpecDeclaration.key
      = ((mergeSpecs ds).map SpecDeclaration.pair).map (isCallback, ·) := by
    rw [List.map_map]
    refine List.map_congr_left fun d hd => ?_
    obtain ⟨e, he, hkey⟩ := (isJoined_of_joined ((mem_mergeSpecs ds).mp hd)).key
    have hkind : e.isCallback = d.isCallback := congrArg Prod.fst hkey
    exact Prod.ext (hkind.symm.trans (h e (List.mem_of_mem_filter he))) rfl
  rw [hpairs] at hkeys
  exact List.Nodup.of_map _ hkeys

end Collecting

end Typespec
end ModuleBuild
