import ModuleBuild.Proofs.Definition.Order

/-! # The summary of a definition table

The summary lists what is found under the pairs: a pair stands in the list of a kind exactly
if a definition of that kind is found under it.
-/
namespace ModuleBuild

/-- The pairs that are defined as a kind, in order. -/
def DefinitionSummary.ofKind (s : DefinitionSummary) : DefinitionKind → List NameArity
  | .function => s.functions
  | .privateFunction => s.privateFunctions
  | .macroFunction => s.macros
  | .privateMacro => s.privateMacros

namespace DefinitionTable

variable {t : DefinitionTable} {d : Definition} {p : NameArity}

theorem pair_of_get? (h : t.get? p = some d) : d.pair = p :=
  t.keyed _ (OrderedMap.mem_of_get? h)

theorem ofKind_summary (t : DefinitionTable) (k : DefinitionKind) :
    t.summary.ofKind k = NameArity.sorted (t.pairsOf k) := by
  cases k <;> rfl

/-- Each definition is listed under its kind and no other. -/
theorem mem_ofKind_summary {k : DefinitionKind} :
    p ∈ t.summary.ofKind k ↔ ∃ d, t.get? p = some d ∧ d.kind = k := by
  rw [ofKind_summary, NameArity.mem_sorted, mem_pairsOf]
  constructor
  · rintro ⟨d, hd, hkind, rfl⟩
    exact ⟨d, mem_all_iff.mp hd, hkind⟩
  · rintro ⟨d, hd, hkind⟩
    obtain rfl := pair_of_get? hd
    exact ⟨d, mem_all_iff.mpr hd, hkind, rfl⟩

theorem mem_unreachable_summary :
    p ∈ t.summary.unreachable ↔
      ∃ d, t.get? p = some d ∧ d.kind.isPublic = false ∧ p ∉ t.locals := by
  rw [summary, NameArity.mem_sorted]
  simp only [List.mem_map, List.mem_filter, Bool.and_eq_true, Bool.not_eq_true',
    List.contains_eq_mem, decide_eq_false_iff_not, ← mem_all_iff_mem_values, mem_all_iff]
  constructor
  · rintro ⟨d, ⟨hd, hpublic, hlocal⟩, rfl⟩
    exact ⟨d, hd, hpublic, hlocal⟩
  · rintro ⟨d, hd, hpublic, hlocal⟩
    obtain rfl := pair_of_get? hd
    exact ⟨d, ⟨hd, hpublic, hlocal⟩, rfl⟩

end DefinitionTable
end ModuleBuild
