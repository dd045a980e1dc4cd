import ModuleBuild.Proofs.Assembly
import ModuleBuild.Proofs.Definition.Summary

/-! # Exported symbols

A public function is exported under its own pair and a public macro under the pair that it is
called as, so a function and a macro may be exported under one symbol.  Two functions, two
macros, or a definition and the injected function never are.  The exports of a module are
therefore one fewer than its public definitions and the injected function for each macro that
shares its symbol with a function, and every public definition has a symbol of its own exactly
if no macro does (`Assembly.exports_of_ofTables`).
-/
namespace ModuleBuild

theorem NameArity.dispatch_injective : Function.Injective NameArity.dispatch := by
  rintro ⟨n, k⟩ ⟨n', k'⟩ h
  obtain ⟨hname, harity⟩ := NameArity.mk.inj h
  obtain rfl : n = n' := (String.append_right_inj _).mp hname
  obtain rfl : k = k' := (Int.add_left_inj 1).mp harity
  rfl

namespace Definition

variable {d : Definition} {p : NameArity}

/-- The symbol that a definition is exported under; private ones are not. -/
def symbol? (d : Definition) : Option NameArity :=
  match d.kind with
  | .function => some d.pair
  | .macroFunction => some d.pair.dispatch
  | .privateFunction => none
  | .privateMacro => none

theorem symbol?_eq_some_iff : d.symbol? = some p ↔
    (d.kind = .function ∧ d.pair = p) ∨ (d.kind = .macroFunction ∧ d.pair.dispatch = p) := by
  unfold symbol?
  cases d.kind <;> simp

end Definition

namespace DefinitionSummary

/-- The macros that are called as a function of the module is. -/
def overlaps (s : DefinitionSummary) : List NameArity :=
  s.macros.filter fun p => p.dispatch ∈ s.functions

/-- No two definitions are exported under one symbol. -/
def HasOwnSymbols (s : DefinitionSummary) : Prop :=
  ∀ d ∈ s.all, ∀ e ∈ s.all, ∀ p, d.symbol? = some p → e.symbol? = some p → d = e

end DefinitionSummary

namespace DefinitionTable

variable {t : DefinitionTable} {d e : Definition} {p : NameArity}

theorem nodup_functions (t : DefinitionTable) : t.summary.functions.Nodup :=
  (NameArity.ascending_sorted _).nodup

theorem nodup_macros (t : DefinitionTable) : t.summary.macros.Nodup :=
  (NameArity.ascending_sorted _).nodup

/-- The functions and the macros of a table together are as many as its public definitions. -/
theorem length_functions_add_length_macros (t : DefinitionTable) :
    t.summary.functions.length + t.summary.macros.length
      = (t.summary.all.filter fun d => d.kind.isPublic).length := by
  have hfunctions : t.summary.functions.length
      = (t.summary.all.filter fun d => d.kind = .function).length :=
    (congrArg List.length (sorted_pairsOf t .function)).trans (List.length_map _)
  have hmacros : t.summary.macros.length
      = (t.summary.all.filter fun d => d.kind = .macroFunction).length :=
    (congrArg List.length (sorted_pairsOf t .macroFunction)).trans (List.length_map _)
  rw [hfunctions, hmacros]
  generalize t.summary.all = definitions
  induction definitions with
  | nil => rfl
  | cons d rest ih =>
    cases hkind : d.kind <;> simp [hkind, DefinitionKind.isPublic] at ih ⊢ <;> omega

theorem eq_of_mem_all (hd : d ∈ t.summary.all) (he : e ∈ t.summary.all)
    (hpair : d.pair = e.pair) : d = e :=
  Option.some.inj ((mem_all_iff.mp hd).symm.trans (hpair ▸ mem_all_iff.mp he))

/-- Definitions of one kind share no symbol. -/
theorem eq_of_symbol?_of_kind (hd : d ∈ t.summary.all) (he : e ∈ t.summary.all)
    (hdp : d.symbol? = some p) (hep : e.symbol? = some p) (hkind : d.kind = e.kind) : d = e := by
  refine eq_of_mem_all hd he ?_
  rcases Definition.symbol?_eq_some_iff.mp hdp with ⟨hdkind, hdp⟩ | ⟨hdkind, hdp⟩ <;>
    rcases Definition.symbol?_eq_some_iff.mp hep with ⟨hekind, hep⟩ | ⟨hekind, hep⟩
  · exact hdp.trans hep.symm
  · rw [hdkind, hekind] at hkind
    cases hkind
  · rw [hdkind, hekind] at hkind
    cases hkind
  · exact NameArity.dispatch_injective (hdp.trans hep.symm)

theorem mem_overlaps : p ∈ t.summary.overlaps ↔
    (∃ d ∈ t.summary.all, d.kind = .macroFunction ∧ d.pair = p) ∧
      ∃ e ∈ t.summary.all, e.kind = .function ∧ e.pair = p.dispatch := by
  rw [DefinitionSummary.overlaps, List.mem_filter, decide_eq_true_eq]
  exact and_congr (NameArity.mem_sorted.trans mem_pairsOf) (NameArity.mem_sorted.trans mem_pairsOf)

/-- Every definition has a symbol of its own exactly if no macro is called as a function is. -/
theorem hasOwnSymbols_iff : t.summary.HasOwnSymbols ↔ t.summary.overlaps = [] := by
  constructor
  · intro hown
    rw [List.eq_nil_iff_forall_not_mem]
    intro p hp
    obtain ⟨⟨d, hd, hdkind, rfl⟩, e, he, hekind, hpair⟩ := mem_overlaps.mp hp
    have hsame : d = e := hown d hd e he d.pair.dispatch
      (Definition.symbol?_eq_some_iff.mpr (Or.inr ⟨hdkind, rfl⟩))
      (Definition.symbol?_eq_some_iff.mpr (Or.inl ⟨hekind, hpair⟩))
    rw [hsame, hekind] at hdkind
    cases hdkind
  · intro hnil d hd e he p hdp hep
    -- a function and a macro of one symbol would be an overlap
    have hdiffer {f g : Definition} (hf : f ∈ t.summary.all) (hg : g ∈ t.summary.all)
        (hfunction : f.kind = .function ∧ f.pair = p)
        (hdispatch : g.kind = .macroFunction ∧ g.pair.dispatch = p) : False := by
      have hmem := mem_overlaps.mpr
        ⟨⟨g, hg, hdispatch.1, rfl⟩, f, hf, hfunction.1, hfunction.2.trans hdispatch.2.symm⟩
      rw [hnil] at hmem
      cases hmem
    rcases Definition.symbol?_eq_some_iff.mp hdp with hdf | hdm <;>
      rcases Definition.symbol?_eq_some_iff.mp hep with hef | hem
    · exact eq_of_symbol?_of_kind hd he hdp hep (hdf.1.trans hef.1.symm)
    · exact (hdiffer hd he hdf hem).elim
    · exact (hdiffer he hd hef hdm).elim
    · exact eq_of_symbol?_of_kind hd he hdp hep (hdm.1.trans hem.1.symm)

end DefinitionTable

namespace Assembly

section Counting

variable {t : DefinitionTable}

theorem injected_not_mem_functions (h : t.get? Introspection.pair = none) :
    Introspection.pair ∉ t.summary.functions := by
  intro hp
  obtain ⟨d, hd, -⟩ := DefinitionTable.mem_ofKind_summary (k := .function).mp hp
  rw [h] at hd
  cases hd

/-- The exports are the injected function, the functions, and the macros that are called as no
function is. -/
theorem perm_exportsOf (h : t.get? Introspection.pair = none) :
    (exportsOf t.summary).Perm (Introspection.pair :: (t.summary.functions
      ++ (t.summary.macros.filter fun p => p.dispatch ∉ t.summary.functions).map
        NameArity.dispatch)) := by
  refine (List.perm_ext_iff_of_nodup (NameArity.ascending_sorted _).nodup ?nodup).mpr ?mem
  case nodup =>
    rw [List.nodup_cons, List.nodup_append]
    refine ⟨?_, t.nodup_functions,
      (t.nodup_macros.filter _).map NameArity.dispatch_injective, ?_⟩
    · rw [List.mem_append, not_or]
      refine ⟨injected_not_mem_functions h, ?_⟩
      intro hp
      obtain ⟨q, -, hq⟩ := List.mem_map.mp hp
      exact dispatch_ne_introspection q hq
    · rintro p hp _ hp' rfl
      obtain ⟨q, hshared, rfl⟩ := List.mem_map.mp hp'
      exact of_decide_eq_true (List.mem_filter.mp hshared).2 hp
  case mem =>
    intro p
    have hsymbols : p ∈ t.summary.exports ↔
        p ∈ t.summary.functions ∨ ∃ q ∈ t.summary.macros, q.dispatch = p := by
      simp [DefinitionTable.summary]
    change p ∈ NameArity.sorted (t.summary.exports ++ [Introspection.pair]) ↔ _
    rw [NameArity.mem_sorted, List.mem_append, hsymbols, List.mem_singleton]
    simp only [List.mem_cons, List.mem_append, List.mem_map, List.mem_filter, decide_eq_true_eq]
    constructor
    · rintro ((hp | ⟨q, hq, rfl⟩) | hp)
      · exact Or.inr (Or.inl hp)
      · by_cases hshared : q.dispatch ∈ t.summary.functions
        · exact Or.inr (Or.inl hshared)
        · exact Or.inr (Or.inr ⟨q, ⟨hq, hshared⟩, rfl⟩)
      · exact Or.inl hp
    · rintro (hp | hp | ⟨q, ⟨hq, -⟩, rfl⟩)
      · exact Or.inr hp
      · exact Or.inl (Or.inl hp)
      · exact Or.inl (Or.inr ⟨q, hq, rfl⟩)

/-- Each macro that is called as a function is takes one from the exports. -/
theorem length_exportsOf (h : t.get? Introspection.pair = none) :
    (exportsOf t.summary).length + t.summary.overlaps.length
      = (t.summary.all.filter fun d => d.kind.isPublic).length + 1 := by
  have hlength := (perm_exportsOf h).length_eq
  rw [List.length_cons, List.length_append, List.length_map] at hlength
  have hmacros := List.length_eq_length_filter_add (l := t.summary.macros)
    fun p => decide (p.dispatch ∈ t.summary.functions)
  have hpublic := t.length_functions_add_length_macros
  rw [DefinitionSummary.overlaps, hlength]
  simp only [decide_not] at hmacros ⊢
  omega

end Counting

/-- What the exports of a module are to its definitions. -/
structure Exporting (exports : List NameArity) (s : DefinitionSummary) : Prop where
  ascending : NameArity.Ascending exports
  mem_exports : ∀ p, p ∈ exports ↔ p = Introspection.pair ∨ ∃ d ∈ s.all, d.symbol? = some p
  injected : ∀ d ∈ s.all, d.symbol? ≠ some Introspection.pair
  shared : ∀ d ∈ s.all, ∀ e ∈ s.all, ∀ p,
    d.symbol? = some p → e.symbol? = some p → d.kind = e.kind → d = e
  length_exports : exports.length + s.overlaps.length
    = (s.all.filter fun d => d.kind.isPublic).length + 1
  hasOwnSymbols_iff : s.HasOwnSymbols ↔ s.overlaps = []

section Assembling

variable {module : String} {location : Location} {attributes : AttributeTable}
  {definitions : DefinitionTable} {withDocs isInternal : Bool} {m : Assembly}

/-- **Which definitions have a symbol of their own.**  A module that is assembled exports the
symbols of its definitions and the injected function, each once.  No definition is exported
under the symbol of the injected function, and no two of one kind share a symbol.  The exports
are as many as the public definitions and the injected function, less one for each macro that is
called as a function of the module is, and every definition has a symbol of its own exactly if
there is no such macro. -/
theorem exports_of_ofTables
    (h : ofTables module location attributes definitions withDocs isInternal = .ok m) :
    Exporting m.exports definitions.summary := by
  obtain ⟨hnone, -⟩ := typespecs_of_ofTables h
  rw [(isOf_ofTables h).exports]
  constructor
  case ascending => exact NameArity.ascending_sorted _
  case mem_exports =>
    intro p
    rw [mem_exportsOf]
    simp only [Definition.symbol?_eq_some_iff]
    constructor
    · rintro (⟨d, hd, hp⟩ | ⟨d, hd, hp⟩ | hp)
      · exact Or.inr ⟨d, hd, Or.inl hp⟩
      · exact Or.inr ⟨d, hd, Or.inr hp⟩
      · exact Or.inl hp
    · rintro (hp | ⟨d, hd, hp | hp⟩)
      · exact Or.inr (Or.inr hp)
      · exact Or.inl ⟨d, hd, hp⟩
      · exact Or.inr (Or.inl ⟨d, hd, hp⟩)
  case injected =>
    intro d hd hsymbol
    rcases Definition.symbol?_eq_some_iff.mp hsymbol with ⟨-, hpair⟩ | ⟨-, hpair⟩
    · have hsome := DefinitionTable.mem_all_iff.mp hd
      rw [hpair, hnone] at hsome
      cases hsome
    · exact dispatch_ne_introspection _ hpair
  case shared =>
    intro d hd e he p hdp hep hkind
    exact DefinitionTable.eq_of_symbol?_of_kind hd he hdp hep hkind
  case length_exports => exact length_exportsOf hnone
  case hasOwnSymbols_iff => exact DefinitionTable.hasOwnSymbols_iff

end Assembling

/-! ## A module with a function that is called as its macro is -/

namespace Overlap

/-- Where the module stands. -/
def location : Location := ⟨"lib/twice.src", 1⟩

/-- A macro, the function that it is called as, and another function. -/
def definitions : DefinitionTable :=
  ((DefinitionTable.empty.put
    ⟨.macroFunction, ⟨"twice", 1⟩, [.text "quoted"], ⟨"lib/twice.src", 2⟩⟩).put
    ⟨.function, ⟨"MACRO-twice", 2⟩, [.undefined], ⟨"lib/twice.src", 3⟩⟩).put
    ⟨.function, ⟨"once", 1⟩, [.undefined], ⟨"lib/twice.src", 4⟩⟩

/-- Attributes of a module that has written none. -/
def attributes : AttributeTable := AttributeTable.ofPolicies .initial

/-- The module is accepted. -/
theorem exists_ofTables :
    ∃ m, ofTables "Twice" location attributes definitions true false = .ok m := by
  have hsome : (ofTables "Twice" location attributes definitions true false).toOption.isSome
      = true := by
    decide +kernel
  obtain ⟨m, hm⟩ := Option.isSome_iff_exists.mp hsome
  exact ⟨m, toOption_eq_some.mp hm⟩

theorem overlaps_definitions : definitions.summary.overlaps = [⟨"twice", 1⟩] := by
  have hfunctions : definitions.summary.functions = [⟨"MACRO-twice", 2⟩, ⟨"once", 1⟩] :=
    NameArity.sorted_of_ascending (by decide)
  have hmacros : definitions.summary.macros = [⟨"twice", 1⟩] :=
    NameArity.sorted_of_ascending (by decide)
  rw [DefinitionSummary.overlaps, hfunctions, hmacros]
  decide

end Overlap

/-- Three public definitions and the injected function are exported under three symbols. -/
theorem exports_of_ofTables_overlap :
    ∃ m, ofTables "Twice" Overlap.location Overlap.attributes Overlap.definitions true false
        = .ok m ∧
      m.exports.length = 3 ∧ ¬Overlap.definitions.summary.HasOwnSymbols := by
  obtain ⟨m, hm⟩ := Overlap.exists_ofTables
  have hexporting := exports_of_ofTables hm
  refine ⟨m, hm, ?_, ?_⟩
  · have hlength := hexporting.length_exports
    have hpublic : (Overlap.definitions.summary.all.filter fun d => d.kind.isPublic).length = 3 :=
      ((NameArity.perm_sortBy _ _).filter _).length_eq.trans (by decide)
    rw [Overlap.overlaps_definitions, hpublic] at hlength
    simpa using hlength
  · rw [hexporting.hasOwnSymbols_iff, Overlap.overlaps_definitions]
    exact List.cons_ne_nil _ _

end Assembly
end ModuleBuild
