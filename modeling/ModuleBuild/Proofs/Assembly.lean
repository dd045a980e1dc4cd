import ModuleBuild.Assembly
import ModuleBuild.Proofs.Definition.Order
import ModuleBuild.Proofs.Outcome

/-! # The parts of an assembled module

An assembled module has the attributes and the definitions of the tables it is made of.  Its
exports are its public functions, its public macros as they are called, and the injected
function.
-/
namespace ModuleBuild
namespace Assembly

variable {module : String} {location : Location} {attributes : AttributeTable}
  {definitions : DefinitionTable} {withDocs isInternal : Bool} {m : Assembly}

/-- The name that a macro is called as is not that of the injected function. -/
theorem dispatch_ne_introspection (p : NameArity) : p.dispatch ≠ Introspection.pair := by
  intro h
  have hfirst := congrArg (fun q : NameArity => q.name.toList.head?) h
  simp [NameArity.dispatch, NameArity.dispatchName, Introspection.pair] at hfirst

theorem mem_exportsOf {t : DefinitionTable} {p : NameArity} :
    p ∈ exportsOf t.summary ↔ (∃ d ∈ t.summary.all, d.kind = .function ∧ d.pair = p)
      ∨ (∃ d ∈ t.summary.all, d.kind = .macroFunction ∧ d.pair.dispatch = p)
      ∨ p = Introspection.pair := by
  have hmacros : p ∈ (t.pairsOf .macroFunction).map NameArity.dispatch
      ↔ ∃ d ∈ t.summary.all, d.kind = .macroFunction ∧ d.pair.dispatch = p := by
    rw [List.mem_map]
    constructor
    · rintro ⟨q, hq, rfl⟩
      obtain ⟨d, hd, hkind, rfl⟩ := DefinitionTable.mem_pairsOf.mp hq
      exact ⟨d, hd, hkind, rfl⟩
    · rintro ⟨d, hd, hkind, rfl⟩
      exact ⟨d.pair, DefinitionTable.mem_pairsOf.mpr ⟨d, hd, hkind, rfl⟩, rfl⟩
  rw [exportsOf, NameArity.mem_sorted, List.mem_append, List.mem_singleton]
  change (p ∈ NameArity.sorted (t.pairsOf .function ++ _) ∨ _) ↔ _
  rw [NameArity.mem_sorted, List.mem_append, or_assoc, DefinitionTable.mem_pairsOf, hmacros]

/-- An assembled module has the attributes and the definitions of the tables. -/
structure IsOf (m : Assembly) (name : String) (location : Location) (t : AttributeTable)
    (s : DefinitionSummary) : Prop where
  module : m.module = name
  attributes : t.sections location = .ok m.attributes
  compileValues : m.compileValues = t.readAll "compile"
  definitions : m.definitions = s.all
  functions : m.functions = s.functions
  macros : m.macros = s.macros
  exports : m.exports = exportsOf s

theorem isOf_ofTables
    (h : ofTables module location attributes definitions withDocs isInternal = .ok m) :
    m.IsOf module location attributes definitions.summary := by
  unfold ofTables at h
  split at h
  · cases h
  · obtain ⟨typespecs, -, h⟩ := bind_eq_ok.mp h
    obtain ⟨sections, hsections, h⟩ := bind_eq_ok.mp h
    cases h
    exact ⟨rfl, mapError_eq_ok.mp hsections, rfl, rfl, rfl, rfl, rfl⟩

/-- A module that is assembled does not define the injected function, and its typespecs are
those of its tables. -/
theorem typespecs_of_ofTables
    (h : ofTables module location attributes definitions withDocs isInternal = .ok m) :
    definitions.get? Introspection.pair = none ∧
      typespecsOf isInternal attributes definitions.summary location = .ok m.typespecs := by
  unfold ofTables at h
  split at h
  · cases h
  · next hnone =>
    obtain ⟨typespecs, htypespecs, h⟩ := bind_eq_ok.mp h
    obtain ⟨sections, -, h⟩ := bind_eq_ok.mp h
    cases h
    exact ⟨hnone, htypespecs⟩

end Assembly
end ModuleBuild
