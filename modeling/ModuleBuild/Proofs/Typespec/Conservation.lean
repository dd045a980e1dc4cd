import ModuleBuild.Proofs.Assembly
import ModuleBuild.Proofs.Typespec.Merge
import ModuleBuild.Proofs.Typespec.Target
import ModuleBuild.Proofs.Value.Fields

/-! # Specs are neither lost nor invented

The specs of an assembled module are the specs that were written, each with the function that
it describes, and the spec of the injected function (`conserves_of_ofTables`).
-/
namespace ModuleBuild

/-- The specs that describe a pair, in the order they were written. -/
def WrittenSpec.describing (definitions : DefinitionTable) (ws : List WrittenSpec)
    (p : NameArity) : List WrittenSpec :=
  ws.filter fun w => w.target definitions = some p

/-- The specs of a module are those that were written for it, and the one of the injected
function. -/
structure Assembly.Conserves (specs : List SpecDeclaration) (ws : List WrittenSpec)
    (definitions : DefinitionTable) (exports : List NameArity) (location : Location) : Prop where
  ascending : NameArity.Ascending (specs.map SpecDeclaration.pair)
  injected : Introspection.spec location.line ∈ specs
  target_ne : ∀ w ∈ ws, w.target definitions ≠ some Introspection.pair
  declared : ∀ p, p ≠ Introspection.pair →
    ((∃ d ∈ specs, d.pair = p) ↔ ∃ w ∈ ws, w.target definitions = some p)
  clauses : ∀ d ∈ specs, d.pair ≠ Introspection.pair →
    d.clauses = (WrittenSpec.describing definitions ws d.pair).map (WrittenSpec.clause definitions)
  line : ∀ d ∈ specs, d.pair ≠ Introspection.pair →
    (∃ w ∈ WrittenSpec.describing definitions ws d.pair, w.line = d.line) ∧
      ∀ w ∈ WrittenSpec.describing definitions ws d.pair, d.line ≤ w.line
  kind : ∀ d ∈ specs, d.isCallback = false
  params : ∀ d ∈ specs, ∀ c ∈ d.clauses, (c.params.length : Int) = d.pair.arity
  visible : ∀ d ∈ specs, d.pair ∈ exports ∨ ∃ e, definitions.get? d.pair = some e ∧
    e.kind = .privateFunction ∧ d.pair ∈ definitions.locals

namespace Typespec

open WrittenSpec (describing)

variable {definitions : DefinitionTable} {ws : List WrittenSpec} {p : NameArity}

/-- The declarations of specs, each aimed at what it describes. -/
def aimedSpecs (definitions : DefinitionTable) (ws : List WrittenSpec) : List SpecDeclaration :=
  (ws.map WrittenSpec.declaration).filterMap fun d => retarget d definitions.summary

theorem aimedSpecs_eq (definitions : DefinitionTable) (ws : List WrittenSpec) :
    aimedSpecs definitions ws
      = ws.filterMap fun w => (w.target definitions).map fun p => w.aimed definitions p := by
  rw [aimedSpecs, List.filterMap_map]
  exact List.filterMap_congr fun w _ => retarget_declaration definitions w

theorem isCallback_aimedSpecs {d : SpecDeclaration} (hd : d ∈ aimedSpecs definitions ws) :
    d.isCallback = false := by
  rw [aimedSpecs_eq] at hd
  obtain ⟨w, -, hw⟩ := List.mem_filterMap.mp hd
  obtain ⟨p, -, rfl⟩ := Option.map_eq_some_iff.mp hw
  rfl

/-- The declarations aimed at a pair are those of the specs that describe it. -/
theorem filter_aimedSpecs (definitions : DefinitionTable) (ws : List WrittenSpec)
    (p : NameArity) : (aimedSpecs definitions ws).filter (fun d => d.key = (false, p))
      = (describing definitions ws p).map (WrittenSpec.aimed definitions p) := by
  rw [aimedSpecs_eq, describing]
  induction ws with
  | nil => rfl
  | cons w rest ih =>
    cases htarget : w.target definitions with
    | none => simpa [htarget] using ih
    | some q =>
      by_cases hq : q = p
      · subst hq
        simpa [htarget, SpecDeclaration.key, WrittenSpec.aimed] using ih
      · simpa [htarget, SpecDeclaration.key, WrittenSpec.aimed, hq] using ih

/-- A merged declaration is what the specs that describe its pair come to. -/
theorem mem_mergeSpecs_aimedSpecs {d : SpecDeclaration} :
    d ∈ mergeSpecs (aimedSpecs definitions ws) ↔ d.isCallback = false ∧
      joined ((describing definitions ws d.pair).map (WrittenSpec.aimed definitions d.pair))
        = some d := by
  rw [mem_mergeSpecs, ← filter_aimedSpecs]
  constructor
  · intro hd
    obtain ⟨e, he, hkey⟩ := (isJoined_of_joined hd).key
    have hkind : d.isCallback = false := by
      rw [← isCallback_aimedSpecs (List.mem_of_mem_filter he)]
      exact (congrArg Prod.fst hkey).symm
    rw [SpecDeclaration.key, hkind] at hd
    exact ⟨hkind, hd⟩
  · rintro ⟨hkind, hd⟩
    rwa [SpecDeclaration.key, hkind]

section Merged

variable {d : SpecDeclaration} (hd : d ∈ mergeSpecs (aimedSpecs definitions ws))

include hd

theorem isJoined_of_mem_mergeSpecs :
    IsJoined d ((describing definitions ws d.pair).map (WrittenSpec.aimed definitions d.pair)) :=
  isJoined_of_joined (mem_mergeSpecs_aimedSpecs.mp hd).2

theorem clauses_of_mem_mergeSpecs :
    d.clauses = (describing definitions ws d.pair).map (WrittenSpec.clause definitions) := by
  rw [(isJoined_of_mem_mergeSpecs hd).clauses, List.flatMap_map]
  exact List.flatMap_pure_eq_map _ _

theorem line_of_mem_mergeSpecs :
    (∃ w ∈ describing definitions ws d.pair, w.line = d.line) ∧
      ∀ w ∈ describing definitions ws d.pair, d.line ≤ w.line := by
  obtain ⟨-, ⟨e, he, hline⟩, hle, -⟩ := isJoined_of_mem_mergeSpecs hd
  obtain ⟨w, hw, rfl⟩ := List.mem_map.mp he
  exact ⟨⟨w, hw, hline⟩, fun w' hw' => hle _ (List.mem_map_of_mem hw')⟩

/-- Some spec describes the pair of a merged declaration. -/
theorem exists_target_of_mem_mergeSpecs : ∃ w ∈ ws, w.target definitions = some d.pair := by
  obtain ⟨⟨w, hw, -⟩, -⟩ := line_of_mem_mergeSpecs hd
  exact ⟨w, List.mem_of_mem_filter hw, by simpa using (List.mem_filter.mp hw).2⟩

theorem params_of_mem_mergeSpecs {c : SpecClause} (hc : c ∈ d.clauses) :
    (c.params.length : Int) = d.pair.arity := by
  rw [clauses_of_mem_mergeSpecs hd] at hc
  obtain ⟨w, hw, rfl⟩ := List.mem_map.mp hc
  have htarget : w.target definitions = some d.pair := by simpa using (List.mem_filter.mp hw).2
  obtain ⟨-, -, hparams, -⟩ := WrittenSpec.target_eq_some htarget
  exact hparams

end Merged

/-- Every pair that a spec describes has a merged declaration. -/
theorem exists_mem_mergeSpecs {w : WrittenSpec} (hw : w ∈ ws)
    (htarget : w.target definitions = some p) :
    ∃ d ∈ mergeSpecs (aimedSpecs definitions ws), d.pair = p := by
  have hmem : w.aimed definitions p ∈ aimedSpecs definitions ws := by
    rw [aimedSpecs_eq]
    exact List.mem_filterMap.mpr ⟨w, hw, by rw [htarget]; rfl⟩
  obtain ⟨d, hd, hkey⟩ := exists_mem_mergeSpecs_of_mem hmem
  exact ⟨d, hd, congrArg Prod.snd hkey⟩

end Typespec

namespace Assembly

section Assembling

variable {module : String} {location : Location} {attributes : AttributeTable}
  {definitions : DefinitionTable} {withDocs : Bool} {m : Assembly} {ws : List WrittenSpec}

/-- No spec describes the injected function unless the module defines it. -/
theorem target_ne_of_get?_eq_none (h : definitions.get? Introspection.pair = none)
    (w : WrittenSpec) : w.target definitions ≠ some Introspection.pair := by
  intro htarget
  obtain ⟨d, hget, -, hd⟩ := WrittenSpec.target_eq_some htarget
  rcases hd with ⟨-, hpair⟩ | ⟨-, hpair⟩ | ⟨-, hpair, -⟩
  · rw [← hpair, h] at hget
    cases hget
  · exact dispatch_ne_introspection _ hpair.symm
  · rw [← hpair, h] at hget
    cases hget

/-- A pair that a spec describes is exported, or a private function recorded as used. -/
theorem visible_of_target {w : WrittenSpec} {p : NameArity}
    (h : w.target definitions = some p) :
    p ∈ exportsOf definitions.summary ∨ ∃ e, definitions.get? p = some e ∧
      e.kind = .privateFunction ∧ p ∈ definitions.locals := by
  obtain ⟨d, hget, -, hd⟩ := WrittenSpec.target_eq_some h
  have hpair : d.pair = w.pair := DefinitionTable.pair_of_get? hget
  have hmem : d ∈ definitions.summary.all := DefinitionTable.mem_all_iff.mpr (hpair ▸ hget)
  rcases hd with ⟨hkind, rfl⟩ | ⟨hkind, rfl⟩ | ⟨hkind, rfl, hlocal⟩
  · exact Or.inl (mem_exportsOf.mpr (Or.inl ⟨d, hmem, hkind, hpair⟩))
  · exact Or.inl (mem_exportsOf.mpr (Or.inr (Or.inl ⟨d, hmem, hkind, by rw [hpair]⟩)))
  · exact Or.inr ⟨d, hget, hkind, hlocal⟩

/-- The specs that were written, if a module is assembled with its typespecs. -/
theorem exists_written
    (h : ofTables module location attributes definitions withDocs false = .ok m) :
    ∃ ws, List.Forall₂ (fun form w => WrittenSpec.IsReadFrom w location form)
        (attributes.readAll "spec") ws ∧
      m.typespecs.specs = NameArity.sortBy SpecDeclaration.pair
        (Typespec.mergeSpecs (Typespec.aimedSpecs definitions ws)
          ++ [Introspection.spec location.line]) := by
  obtain ⟨-, h⟩ := typespecs_of_ofTables h
  obtain ⟨sections, hsections, h⟩ := bind_eq_ok.mp h
  obtain ⟨types, -, hsections⟩ := bind_eq_ok.mp hsections
  obtain ⟨specs, hspecs, hsections⟩ := bind_eq_ok.mp hsections
  obtain ⟨callbacks, -, hsections⟩ := bind_eq_ok.mp hsections
  obtain ⟨macroCallbacks, -, hsections⟩ := bind_eq_ok.mp hsections
  obtain ⟨optional, -, hsections⟩ := bind_eq_ok.mp hsections
  cases hsections
  obtain ⟨ws, hws, rfl⟩ := Typespec.mapM_translateSpec_eq_ok hspecs
  exact ⟨ws, hws, (congrArg TypespecSections.specs (Except.ok.inj h)).symm⟩

/-- **Specs are neither lost nor invented.**  Each spec form is written for one spec.  In the
assembled module the declaration of a pair has one clause for each spec that describes the pair
(`WrittenSpec.target`), in the order they were written, at the least of their lines.  The only
other declaration is that of the injected function.  All stand in ascending order and have as
many parameters as they declare, and what they describe is exported or a private function
recorded as used. -/
theorem conserves_of_ofTables
    (h : ofTables module location attributes definitions withDocs false = .ok m) :
    ∃ ws, List.Forall₂ (fun form w => WrittenSpec.IsReadFrom w location form)
        (attributes.readAll "spec") ws ∧
      Conserves m.typespecs.specs ws definitions m.exports location := by
  obtain ⟨ws, hws, hspecs⟩ := exists_written h
  refine ⟨ws, hws, ?_⟩
  have htarget (w : WrittenSpec) := target_ne_of_get?_eq_none (typespecs_of_ofTables h).1 w
  have hmem (d : SpecDeclaration) : d ∈ m.typespecs.specs ↔
      d ∈ Typespec.mergeSpecs (Typespec.aimedSpecs definitions ws)
        ∨ d = Introspection.spec location.line := by
    rw [hspecs, (NameArity.perm_sortBy _ _).mem_iff, List.mem_append, List.mem_singleton]
  -- a declaration of another pair than the injected one comes from what was written
  have hmerged {d : SpecDeclaration} (hd : d ∈ m.typespecs.specs)
      (hne : d.pair ≠ Introspection.pair) :
      d ∈ Typespec.mergeSpecs (Typespec.aimedSpecs definitions ws) := by
    rcases (hmem d).mp hd with hd | rfl
    · exact hd
    · exact absurd rfl hne
  constructor
  case ascending =>
    rw [hspecs]
    refine NameArity.ascending_map_sortBy _ _ ?_
    rw [List.map_append, List.map_singleton, ← List.concat_eq_append, List.nodup_concat]
    refine ⟨?_, Typespec.nodup_pairs_mergeSpecs fun d hd => Typespec.isCallback_aimedSpecs hd⟩
    intro hpair
    obtain ⟨d, hd, hpair⟩ := List.mem_map.mp hpair
    obtain ⟨w, -, hw⟩ := Typespec.exists_target_of_mem_mergeSpecs hd
    exact htarget w (hw.trans (congrArg some hpair))
  case injected => exact (hmem _).mpr (Or.inr rfl)
  case target_ne => exact fun w _ => htarget w
  case declared =>
    intro p hne
    constructor
    · rintro ⟨d, hd, rfl⟩
      exact Typespec.exists_target_of_mem_mergeSpecs (hmerged hd hne)
    · rintro ⟨w, hw, hp⟩
      obtain ⟨d, hd, hpair⟩ := Typespec.exists_mem_mergeSpecs hw hp
      exact ⟨d, (hmem d).mpr (Or.inl hd), hpair⟩
  case clauses => exact fun d hd hne => Typespec.clauses_of_mem_mergeSpecs (hmerged hd hne)
  case line => exact fun d hd hne => Typespec.line_of_mem_mergeSpecs (hmerged hd hne)
  case kind =>
    intro d hd
    rcases (hmem d).mp hd with hd | rfl
    · exact (Typespec.mem_mergeSpecs_aimedSpecs.mp hd).1
    · rfl
  case params =>
    intro d hd c hc
    rcases (hmem d).mp hd with hd | rfl
    · exact Typespec.params_of_mem_mergeSpecs hd hc
    · rw [List.mem_singleton.mp hc]
      rfl
  case visible =>
    intro d hd
    rw [(isOf_ofTables h).exports]
    rcases (hmem d).mp hd with hd | rfl
    · obtain ⟨w, -, hw⟩ := Typespec.exists_target_of_mem_mergeSpecs hd
      exact visible_of_target hw
    · exact Or.inl (mem_exportsOf.mpr (Or.inr (Or.inr rfl)))

end Assembling

/-! ## A module with a macro and a function that share a spec -/

namespace Shelf

/-- Where the module stands. -/
def location : Location := ⟨"lib/shelf.src", 1⟩

/-- The definitions of the module: one function is named as the macro is called. -/
def definitions : DefinitionTable :=
  ((((DefinitionTable.empty.put
      ⟨.macroFunction, ⟨"unless", 2⟩, [.text "quoted"], ⟨"lib/shelf.src", 3⟩⟩).put
      ⟨.function, ⟨"MACRO-unless", 3⟩, [.undefined], ⟨"lib/shelf.src", 5⟩⟩).put
      ⟨.privateFunction, ⟨"log", 1⟩, [.undefined], ⟨"lib/shelf.src", 7⟩⟩).put
      ⟨.privateFunction, ⟨"idle", 0⟩, [.undefined], ⟨"lib/shelf.src", 9⟩⟩).recordLocal ⟨"log", 1⟩

/-- A type by its name. -/
def named (name : String) : Value := .record [("kind", .text "named"), ("name", .text name)]

/-- The spec forms of the module; the one of `log` gives no line. -/
def forms : List Value :=
  [.record [("name", .text "MACRO-unless"), ("result", named "term"), ("line", .int 4),
      ("params", .list [named "env", named "bool", named "block"])],
    .record [("name", .text "unless"), ("result", named "block"), ("line", .int 2),
      ("params", .list [named "bool", named "block"])],
    .record [("name", .text "log"), ("result", named "ok"), ("params", .list [named "text"])],
    .record [("name", .text "idle"), ("result", named "ok"), ("params", .list [])]]

/-- The specs that the forms are written for. -/
def written : List WrittenSpec :=
  [⟨"MACRO-unless", [named "env", named "bool", named "block"], named "term", 4⟩,
    ⟨"unless", [named "bool", named "block"], named "block", 2⟩,
    ⟨"log", [named "text"], named "ok", 1⟩, ⟨"idle", [], named "ok", 1⟩]

/-- The attributes of the module. -/
def attributes : AttributeTable :=
  (AttributeTable.ofPolicies .initial).setCell "spec" (some (.accumulated forms)) (by decide)

theorem isWritten_named (name : String) : TypeExpr.isWritten (named name) = true := by
  have hprecede : Value.MayPrecede ("kind", Value.text "named") ("name", Value.text name) :=
    ⟨show Value.positionBefore "name" "kind" = false by decide, show "kind" ≠ "name" by decide⟩
  have hfields : named name = .fields [("kind", .text "named"), ("name", .text name)] :=
    congrArg Value.fields (Value.fieldsOf_eq_self (List.pairwise_pair.mpr hprecede))
  have hargs : TypeExpr.argsOf? [("kind", .text "named"), ("name", .text name)] = some none := by
    simp [TypeExpr.argsOf?, Value.get, Value.findField]
  rw [TypeExpr.isWritten, hfields]
  simp [TypeExpr.ofValue?, Value.get, Value.findField, hargs]

theorem isReadFrom_written :
    List.Forall₂ (fun form w => WrittenSpec.IsReadFrom w location form) forms written := by
  refine .cons ⟨rfl, rfl, rfl, Or.inr rfl⟩ (.cons ⟨rfl, rfl, rfl, Or.inr rfl⟩
    (.cons ⟨rfl, rfl, rfl, Or.inl ⟨rfl, rfl⟩⟩ (.cons ⟨rfl, rfl, rfl, Or.inl ⟨rfl, rfl⟩⟩ .nil)))

theorem isTyped_written : ∀ w ∈ written, w.IsTyped := by
  intro w hw
  simp only [written, List.mem_cons, List.not_mem_nil, or_false] at hw
  rcases hw with rfl | rfl | rfl | rfl <;> constructor <;> simp [isWritten_named]

/-- The module is accepted. -/
theorem exists_ofTables :
    ∃ m, ofTables "Shelf" location attributes definitions true false = .ok m := by
  have hspecs : Typespec.declarations attributes location .spec
      = .ok (written.map WrittenSpec.declaration) :=
    Typespec.mapM_translateSpec_of_isReadFrom isReadFrom_written isTyped_written
  have hsome : (ofTables "Shelf" location attributes definitions true false).toOption.isSome
      = true := by
    simp only [ofTables, typespecsOf, Typespec.sections, hspecs]
    decide +kernel
  obtain ⟨m, hm⟩ := Option.isSome_iff_exists.mp hsome
  exact ⟨m, toOption_eq_some.mp hm⟩

end Shelf

/-- The function and the macro share a declaration, and the unused function has none. -/
theorem conserves_of_ofTables_shelf :
    ∃ m, ofTables "Shelf" Shelf.location Shelf.attributes Shelf.definitions true false = .ok m ∧
      (∃ d ∈ m.typespecs.specs, d.pair = ⟨"MACRO-unless", 3⟩ ∧ d.line = 2 ∧
        d.clauses = [⟨[Shelf.named "env", Shelf.named "bool", Shelf.named "block"],
            Shelf.named "term"⟩,
          ⟨[TypeExpr.anyTerm, Shelf.named "bool", Shelf.named "block"],
            Shelf.named "block"⟩]) ∧
      ∀ d ∈ m.typespecs.specs, d.pair ≠ ⟨"idle", 0⟩ := by
  obtain ⟨m, hm⟩ := Shelf.exists_ofTables
  obtain ⟨ws, hws, hconserves⟩ := conserves_of_ofTables hm
  obtain rfl : ws = Shelf.written := WrittenSpec.eq_of_isReadFrom hws Shelf.isReadFrom_written
  obtain ⟨d, hd, hpair⟩ := (hconserves.declared ⟨"MACRO-unless", 3⟩ (by decide)).mpr
    ⟨Shelf.written[1], by simp [Shelf.written], by decide⟩
  have hne : d.pair ≠ Introspection.pair := by
    rw [hpair]
    decide
  have hdescribing : WrittenSpec.describing Shelf.definitions Shelf.written d.pair
      = [Shelf.written[0], Shelf.written[1]] := by
    rw [hpair]
    rfl
  refine ⟨m, hm, ⟨d, hd, hpair, ?_, ?_⟩, ?_⟩
  · obtain ⟨⟨w, hw, hline⟩, hle⟩ := hconserves.line d hd hne
    rw [hdescribing] at hw hle
    have hsecond : d.line ≤ 2 := hle Shelf.written[1] (by simp)
    rcases List.mem_pair.mp hw with rfl | rfl
    · rw [← hline] at hsecond
      exact absurd hsecond (by decide)
    · exact hline.symm
  · rw [hconserves.clauses d hd hne, hdescribing]
    rfl
  · intro d hd hidle
    have hnone : ∀ w ∈ Shelf.written, w.target Shelf.definitions ≠ some ⟨"idle", 0⟩ := by decide
    obtain ⟨w, hw, htarget⟩ := (hconserves.declared ⟨"idle", 0⟩ (by decide)).mp ⟨d, hd, hidle⟩
    exact hnone w hw htarget

end Assembly
end ModuleBuild
