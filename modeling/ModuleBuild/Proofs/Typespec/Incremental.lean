import ModuleBuild.Proofs.Definition.Key
import ModuleBuild.Proofs.Typespec.Merge

/-! # Merging in parts

Merged declarations stand in the order of their pairs, and those of one pair in the order in which
its kinds are declared first (`map_key_filter_mergeSpecs`).  So they are determined by that order
and by what the declarations of each thing come to (`mergeSpecs_congr`).  Merging a part of the
declarations beforehand changes neither: the merged part declares the kinds of a pair in the same
order, and what it comes to for a thing goes on as if it had been collected declaration by
declaration (`joinedOf_mergeSpecs_append`).
-/
namespace ModuleBuild

/-- The values of a map are those at its keys, in their order. -/
theorem OrderedMap.values_eq_filterMap {κ α : Type} [DecidableEq κ] (m : OrderedMap κ α) :
    m.values = m.keys.filterMap m.get? := by
  rw [values, keys, List.filterMap_map, ← List.filterMap_eq_map]
  exact List.filterMap_congr fun _ he => (mem_entries_iff.mp he).symm

namespace SpecDeclaration

/-- What a declaration declares, written: its kind, a colon and the key of its pair. -/
def writtenKey (d : SpecDeclaration) : String :=
  (if d.isCallback then "callback" else "spec") ++ ":" ++ d.pair.key

/-- What is written tells the things apart that are declared. -/
theorem writtenKey_eq_iff {d e : SpecDeclaration} :
    d.writtenKey = e.writtenKey ↔ d.key = e.key := by
  rw [key, key, Prod.mk.injEq]
  constructor
  · intro h
    have hchars := congrArg String.toList h
    cases hd : d.isCallback <;> cases he : e.isCallback <;>
      simp [writtenKey, hd, he] at hchars
    all_goals exact ⟨rfl, NameArity.key_injective (String.toList_injective hchars)⟩
  · rintro ⟨hkind, hpair⟩
    rw [writtenKey, writtenKey, hkind, hpair]

end SpecDeclaration

namespace Typespec

/-- What the declarations of a thing come to. -/
def joinedOf (ds : List SpecDeclaration) (k : Bool × NameArity) : Option SpecDeclaration :=
  joined (ds.filter fun d => d.key = k)

/-- Declarations go on from what earlier ones come to. -/
theorem joined_toList_append (ds ds' : List SpecDeclaration) :
    joined ((joined ds).toList ++ ds') = joined (ds ++ ds') := by
  cases ds with
  | nil => rfl
  | cons d ds => simp [joined]

variable {ds ds' : List SpecDeclaration}

theorem key_of_joinedOf {k : Bool × NameArity} {d : SpecDeclaration} (h : joinedOf ds k = some d) :
    d.key = k :=
  key_of_get?_collected ds ((get?_collected ds k).trans h)

theorem exists_joinedOf {e : SpecDeclaration} (he : e ∈ ds) : ∃ d, joinedOf ds e.key = some d := by
  obtain ⟨d, hd, hkey⟩ := exists_mem_mergeSpecs_of_mem he
  exact ⟨d, hkey ▸ (mem_mergeSpecs ds).mp hd⟩

section Order

variable (ds) (p : NameArity)

/-- Things are collected in the order in which they are declared first. -/
theorem keys_collected : (collected ds).keys = (ds.map SpecDeclaration.key).eraseDups := by
  induction ds using List.reverseRecOn with
  | nil => rfl
  | append_singleton ds d ih =>
    have hstep : (collected (ds ++ [d])).keys = (collect (collected ds) d).keys := by
      simp [collected]
    rw [hstep, List.map_append, List.map_singleton, Sorting.eraseDups_append_singleton, collect,
      OrderedMap.keys_insert, ih]
    simp only [List.mem_eraseDups]
    by_cases hd : d.key ∈ ds.map SpecDeclaration.key
    · exact (if_pos hd).trans (if_pos hd).symm
    · exact (if_neg hd).trans (if_neg hd).symm

theorem values_collected :
    (collected ds).values = (ds.map SpecDeclaration.key).eraseDups.filterMap (joinedOf ds) := by
  rw [OrderedMap.values_eq_filterMap, keys_collected]
  exact List.filterMap_congr fun k _ => get?_collected ds k

theorem pairwise_mergeSpecs : (mergeSpecs ds).Pairwise
    fun d e => (NameArity.compare d.pair e.pair).isLE = true :=
  Sorting.pairwise_mergeSort NameArity.compare SpecDeclaration.pair _

theorem filter_map_key : (ds.map SpecDeclaration.key).filter (fun k => k.2 = p)
    = (ds.filter fun d => d.pair = p).map SpecDeclaration.key := by
  rw [List.filter_map]
  rfl

/-- The merged declarations of a pair are what its declarations of each kind come to, in the order
in which the kinds are declared first. -/
theorem filter_mergeSpecs : ((mergeSpecs ds).filter fun d => d.pair = p)
    = ((ds.filter fun d => d.pair = p).map SpecDeclaration.key).eraseDups.filterMap
        (joinedOf ds) := by
  have hsort : ((mergeSpecs ds).filter fun d => d.pair = p)
      = (collected ds).values.filter fun d => d.pair = p :=
    Sorting.filter_mergeSort NameArity.compare SpecDeclaration.pair _ p
  rw [hsort, values_collected, List.filter_filterMap, ← filter_map_key, ← Sorting.filter_eraseDups,
    List.filterMap_filter]
  refine List.filterMap_congr fun k _ => ?_
  cases hd : joinedOf ds k with
  | none => simp
  | some d =>
    have hpair : d.pair = k.2 := congrArg Prod.snd (key_of_joinedOf hd)
    simp [hpair, Option.filter]

/-- **Declarations of one pair are merged in the order in which its kinds are declared first.** -/
theorem map_key_filter_mergeSpecs :
    ((mergeSpecs ds).filter fun d => d.pair = p).map SpecDeclaration.key
      = ((ds.filter fun d => d.pair = p).map SpecDeclaration.key).eraseDups := by
  rw [filter_mergeSpecs, List.map_filterMap]
  refine (List.filterMap_congr fun k hk => ?_).trans List.filterMap_some
  obtain ⟨e, he, rfl⟩ := List.mem_map.mp (List.mem_eraseDups.mp hk)
  obtain ⟨d, hd⟩ := exists_joinedOf (List.mem_of_mem_filter he)
  rw [hd, Option.map_some, key_of_joinedOf hd]

/-- There is one merged declaration of each thing that is declared. -/
theorem filter_key_mergeSpecs (k : Bool × NameArity) :
    ((mergeSpecs ds).filter fun d => d.key = k) = (joinedOf ds k).toList := by
  have hnodup : ((mergeSpecs ds).filter fun d => d.key = k).Nodup :=
    (List.Nodup.of_map _ (nodup_keys_mergeSpecs ds)).filter _
  have hmem (d : SpecDeclaration) :
      d ∈ (mergeSpecs ds).filter (fun d => d.key = k) ↔ joinedOf ds k = some d := by
    rw [List.mem_filter, mem_mergeSpecs, decide_eq_true_eq]
    constructor
    · rintro ⟨hd, rfl⟩
      exact hd
    · intro hd
      obtain rfl := key_of_joinedOf hd
      exact ⟨hd, rfl⟩
  cases hd : joinedOf ds k with
  | none =>
    refine List.eq_nil_iff_forall_not_mem.mpr fun d h => ?_
    rw [hmem, hd] at h
    cases h
  | some d =>
    refine List.perm_singleton.mp
      ((List.perm_ext_iff_of_nodup hnodup (List.nodup_singleton d)).mpr fun e => ?_)
    rw [hmem, hd, List.mem_singleton, Option.some.injEq, eq_comm]

end Order

/-- Merged declarations are determined by the order in which the kinds of each pair are declared
first, and by what the declarations of each thing come to. -/
theorem mergeSpecs_congr
    (hkeys : ∀ p, ((ds.filter fun d => d.pair = p).map SpecDeclaration.key).eraseDups
      = ((ds'.filter fun d => d.pair = p).map SpecDeclaration.key).eraseDups)
    (hjoined : ∀ k, joinedOf ds k = joinedOf ds' k) : mergeSpecs ds = mergeSpecs ds' := by
  refine Sorting.eq_of_filter_eq NameArity.compare SpecDeclaration.pair (pairwise_mergeSpecs ds)
    (pairwise_mergeSpecs ds') fun p => ?_
  rw [filter_mergeSpecs, filter_mergeSpecs, hkeys, funext hjoined]

section Parts

variable (xs ys : List SpecDeclaration)

theorem joinedOf_mergeSpecs_append (k : Bool × NameArity) :
    joinedOf (mergeSpecs xs ++ ys) k = joinedOf (xs ++ ys) k := by
  rw [joinedOf, joinedOf, List.filter_append, List.filter_append, filter_key_mergeSpecs, joinedOf,
    joined_toList_append]

/-- Declarations can be merged with those that follow, or be merged before. -/
theorem mergeSpecs_append : mergeSpecs (mergeSpecs xs ++ ys) = mergeSpecs (xs ++ ys) := by
  -- Merging leaves each pair's kinds in the order of their first declarations, which is all that
  -- counts for the order when others follow.
  refine mergeSpecs_congr (fun p => ?_) (joinedOf_mergeSpecs_append xs ys)
  rw [List.filter_append, List.filter_append, List.map_append, List.map_append,
    map_key_filter_mergeSpecs, Sorting.eraseDups_eraseDups_append]

theorem mergeSpecs_mergeSpecs : mergeSpecs (mergeSpecs xs) = mergeSpecs xs := by
  have h := mergeSpecs_append xs []
  rwa [List.append_nil, List.append_nil] at h

/-- **Merging can be done in parts.**  Merging all declarations is the same as merging the first of
them, and then the outcome with the others; what is merged is left as it is.  Merged declarations
have the clauses of the declarations of the same thing in order, at the least of their lines; they
stand in the order of their pairs, and those of one pair in the order in which its kinds are
declared first.  A thing that is declared is told by its kind and the key of its pair, as they are
written. -/
theorem merging_laws :
    mergeSpecs (xs ++ ys) = mergeSpecs (mergeSpecs xs ++ ys) ∧
    mergeSpecs (mergeSpecs xs) = mergeSpecs xs ∧
    (∀ d ∈ mergeSpecs xs, IsJoined d (xs.filter fun e => e.key = d.key)) ∧
    (mergeSpecs xs).Pairwise (fun d e => (NameArity.compare d.pair e.pair).isLE = true) ∧
    (∀ p, ((mergeSpecs xs).filter fun d => d.pair = p).map SpecDeclaration.key
      = ((xs.filter fun d => d.pair = p).map SpecDeclaration.key).eraseDups) ∧
    ∀ d e : SpecDeclaration, d.writtenKey = e.writtenKey ↔ d.key = e.key :=
  ⟨(mergeSpecs_append xs ys).symm, mergeSpecs_mergeSpecs xs,
    fun _ hd => isJoined_of_joined ((mem_mergeSpecs xs).mp hd), pairwise_mergeSpecs xs,
    map_key_filter_mergeSpecs xs, fun _ _ => SpecDeclaration.writtenKey_eq_iff⟩

end Parts

end Typespec
end ModuleBuild
