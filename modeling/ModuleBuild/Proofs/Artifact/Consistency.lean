import ModuleBuild.Proofs.Artifact.Answers
import ModuleBuild.Proofs.Assembly

/-! # The description of a module in its artifact

The chunks of a built artifact and its answers describe one module (`Describes`): the same
facts reach several chunks on different ways, and what is read back from them agrees.
-/
namespace ModuleBuild

/-- The entry of a code chunk for a definition. -/
structure IsCodeEntry (entry : Value) (d : Definition) : Prop where
  name : entry.get "name" = .text d.pair.name
  arity : entry.get "arity" = .int d.pair.arity
  kind : entry.get "kind" = .text d.kind.word

/-- The entry of an attribute chunk for an answered attribute. -/
def IsAttributeEntry (entry : Value) (e : Option (String × Value)) : Prop :=
  ∃ key, entry.get "key" = .text key ∧ e = some (key, entry.get "value")

/-- The answers are those of a module with this name and these attributes. -/
structure InfoAnswers.AreOf (answers : InfoAnswers) (name : String) (location : Location)
    (t : AttributeTable) : Prop where
  module : answers.module = name
  attributes : ∃ sections, t.sections location = .ok sections ∧
    answers.attributes = sections.map fun s => some (s.key, Term.reading s.value)
  compileOptions : answers.compileOptions
    = (BackendOptions.ofValues (t.readAll "compile")).flags.map Term.reading

/-- The chunks of an artifact describe the module that the answers describe, and its
definitions are `ds`. -/
structure Artifact.Describes (a : Artifact) (answers : InfoAnswers) (ds : List Definition) :
    Prop where
  info : ∃ v, a.content? "Info" = some v ∧ ∀ k, v.get (InfoKind.name k) = answers.answer k
  code : ∃ entries, a.content? "Code" = some (.list entries) ∧
    List.Forall₂ IsCodeEntry entries ds
  ascending : NameArity.Ascending (ds.map Definition.pair)
  functions : answers.functions
    = ((ds.filter fun d => d.kind = .function).map Definition.pair).map NameArity.answered
  macros : answers.macros
    = ((ds.filter fun d => d.kind = .macroFunction).map Definition.pair).map NameArity.answered
  exports : ∃ es, NameArity.Ascending es ∧ answers.exports = es.map NameArity.answered ∧
    ∀ p, p ∈ es ↔ (∃ d ∈ ds, d.kind = .function ∧ d.pair = p)
      ∨ (∃ d ∈ ds, d.kind = .macroFunction ∧ d.pair.dispatch = p) ∨ p = Introspection.pair
  exportChunk : a.content? "ExpT" = some (answers.answer .exports)
  attributes : ∃ entries, a.content? "Attr" = some (.list entries) ∧
    List.Forall₂ IsAttributeEntry entries answers.attributes
  options : ∃ v, a.content? "CInf" = some v ∧ v.get "options" = .list answers.compileOptions
  module : ∃ v, a.content? "Modl" = some v ∧ v.get "module" = .text answers.module
  checksum : ∃ code, a.read? "Code" = some code ∧ answers.checksum = Md5.hex code

open Term

theorem isCodeEntry_reading (d : Definition) : IsCodeEntry (reading d.codeValue) d := by
  constructor <;> rw [Definition.codeValue, get_reading_record, Value.get_record]
  · rfl
  · exact reading_int _
  · rfl

theorem isAttributeEntry_reading (s : AttributeSection) :
    IsAttributeEntry (reading s.toValue) (some (s.key, reading s.value)) := by
  have hkey : (reading s.toValue).get "key" = .text s.key := by
    rw [AttributeSection.toValue, get_reading_record, Value.get_record]
    rfl
  have hvalue : (reading s.toValue).get "value" = reading s.value := by
    rw [AttributeSection.toValue, get_reading_record, Value.get_record]
    rfl
  exact ⟨s.key, hkey, by rw [hvalue]⟩

namespace Assembly

section Building

variable {module : String} {location : Location} {attributes : AttributeTable}
  {definitions : DefinitionTable} {withDocs isInternal : Bool} {m : Assembly} {a : Artifact}

theorem reading_codeValue (m : Assembly) :
    ∃ entries, reading m.codeValue = .list entries ∧
      List.Forall₂ IsCodeEntry entries m.definitions := by
  refine ⟨m.definitions.map fun d => reading d.codeValue, ?_, ?_⟩
  · rw [codeValue, reading_list, List.map_map, Function.comp_def]
  · rw [List.forall₂_map_left_iff]
    exact List.forall₂_same.mpr fun d _ => isCodeEntry_reading d

theorem reading_attributeSections (m : Assembly) (checksum : String) :
    ∃ entries, reading (.list (m.attributes.map AttributeSection.toValue)) = .list entries ∧
      List.Forall₂ IsAttributeEntry entries (m.answers checksum).attributes := by
  refine ⟨m.attributes.map fun s => reading s.toValue, ?_, ?_⟩
  · rw [reading_list, List.map_map]
    rfl
  · rw [answers, List.forall₂_map_left_iff, List.forall₂_map_right_iff]
    exact List.forall₂_same.mpr fun s _ => isAttributeEntry_reading s

theorem get_reading_compileInfoValue (m : Assembly) (options : BackendOptions) :
    (reading (m.compileInfoValue options)).get "options"
      = .list (options.flags.map reading) := by
  rw [compileInfoValue, get_reading_record, Value.get_record, ← reading_list]
  split <;> rfl

/-- The answered pairs of a kind are those of the definitions of that kind, in order. -/
theorem answers_functions {t : DefinitionTable} (k : DefinitionKind) :
    (NameArity.sorted (t.pairsOf k)).map NameArity.answered
      = ((t.summary.all.filter fun d => d.kind = k).map Definition.pair).map
          NameArity.answered := by
  rw [DefinitionTable.sorted_pairsOf]

/-- **The chunks of a built artifact describe one module.**  The answers can be read, they
are those of the name and the attributes that were assembled, and the definitions are
those of the table. -/
theorem describes_of_build
    (hm : ofTables module location attributes definitions withDocs isInternal = .ok m)
    (ha : m.build = .ok a) :
    ∃ answers ds, InfoAnswers.ofArtifact a = .ok answers ∧
      answers.AreOf module location attributes ∧
      (∀ d, d ∈ ds ↔ definitions.get? d.pair = some d) ∧ a.Describes answers ds := by
  have hof := isOf_ofTables hm
  obtain ⟨code, hcontents⟩ := contents_of_build ha
  -- the information chunk holds the answers, so they are read back
  have hanswers : InfoAnswers.ofArtifact a = .ok (m.answers (Md5.hex code)) := by
    rw [InfoAnswers.ofArtifact_of_content hcontents.info]
    exact InfoAnswers.ofValue_of_get (isRecord_reading_record _) (get_reading_infoValue m _)
  have hare : (m.answers (Md5.hex code)).AreOf module location attributes := by
    refine ⟨hof.module, ⟨m.attributes, hof.attributes, rfl⟩, ?_⟩
    rw [← hof.compileValues]
    rfl
  have htable : ∀ d, d ∈ m.definitions ↔ definitions.get? d.pair = some d := by
    intro d
    rw [hof.definitions]
    exact DefinitionTable.mem_all_iff
  refine ⟨m.answers (Md5.hex code), m.definitions, hanswers, hare, htable, ?_⟩
  constructor
  case info => exact ⟨_, hcontents.info, get_reading_infoValue m _⟩
  case code =>
    obtain ⟨entries, hentries, hforall⟩ := reading_codeValue m
    exact ⟨entries, by rw [hcontents.code, hentries], hforall⟩
  case ascending =>
    rw [hof.definitions]
    exact DefinitionTable.ascending_all definitions
  case functions =>
    rw [answers, hof.functions, hof.definitions]
    exact answers_functions _
  case macros =>
    rw [answers, hof.macros, hof.definitions]
    exact answers_functions _
  case exports =>
    refine ⟨m.exports, ?_, rfl, ?_⟩
    · rw [hof.exports]
      exact NameArity.ascending_sorted _
    · intro p
      rw [hof.exports, hof.definitions]
      exact mem_exportsOf
  case exportChunk =>
    rw [hcontents.exports, reading_pairsValue]
    rfl
  case attributes =>
    obtain ⟨entries, hentries, hforall⟩ := reading_attributeSections m (Md5.hex code)
    exact ⟨entries, by rw [hcontents.attributes, hentries], hforall⟩
  case options => exact ⟨_, hcontents.compileInfo, get_reading_compileInfoValue m _⟩
  case module =>
    refine ⟨_, hcontents.module, ?_⟩
    rw [get_reading_record, Value.get_record]
    rfl
  case checksum => exact ⟨code, hcontents.codePayload, rfl⟩

end Building

/-! ## A module with a function, a private function and a macro -/

namespace Greeter

/-- Where the module stands. -/
def location : Location := ⟨"lib/greeter.src", 1⟩

/-- The definitions of the module. -/
def definitions : DefinitionTable :=
  ((DefinitionTable.empty.put
      ⟨.function, ⟨"Greet", 1⟩, [.undefined], ⟨"lib/greeter.src", 3⟩⟩).put
      ⟨.privateFunction, ⟨"log", 1⟩, [.list []], ⟨"lib/greeter.src", 5⟩⟩).put
      ⟨.macroFunction, ⟨"unless", 2⟩, [.text "quoted"], ⟨"lib/greeter.src", 7⟩⟩

/-- The attributes of the module, one of them with an undefined value. -/
def attributes : AttributeTable :=
  (((AttributeTable.ofPolicies .initial).setCell "vsn" (some (.single .undefined))
      (by decide)).setCell "behaviour" (some (.accumulated [.text "server"]))
      (by decide)).setCell "compile" (some (.accumulated [.list [.text "debug_info"],
        .fields [("deterministic", .bool true)]])) (by decide)

theorem all_eq_values :
    NameArity.sortBy Definition.pair definitions.definitions.values
      = definitions.definitions.values :=
  NameArity.sortBy_of_ascending _ _ (by decide)

theorem exports_eq : NameArity.sorted (definitions.pairsOf .function
      ++ (definitions.pairsOf .macroFunction).map NameArity.dispatch)
    = [⟨"Greet", 1⟩, ⟨"MACRO-unless", 3⟩] :=
  NameArity.sorted_of_ascending (by decide)

theorem exports_pair_eq :
    NameArity.sorted ([⟨"Greet", 1⟩, ⟨"MACRO-unless", 3⟩] ++ [Introspection.pair])
      = [⟨"Greet", 1⟩, ⟨"MACRO-unless", 3⟩, ⟨"__info__", 1⟩] :=
  NameArity.sorted_of_ascending (by decide)

/-- The module is accepted. -/
theorem exists_build : ∃ m a,
    ofTables "Greeter" location attributes definitions true false = .ok m ∧ m.build = .ok a := by
  have hsome : ((ofTables "Greeter" location attributes definitions true false).toOption.bind
      fun m => m.build.toOption).isSome = true := by
    -- the lists that are sorted stand in order already
    simp only [ofTables, exportsOf, DefinitionTable.summary, all_eq_values, exports_eq,
      exports_pair_eq]
    decide +kernel
  obtain ⟨a, ha⟩ := Option.isSome_iff_exists.mp hsome
  obtain ⟨m, hm, ha⟩ := Option.bind_eq_some_iff.mp ha
  exact ⟨m, a, toOption_eq_some.mp hm, toOption_eq_some.mp ha⟩

end Greeter

theorem describes_of_build_greeter :
    ∃ m a answers ds,
      ofTables "Greeter" Greeter.location Greeter.attributes Greeter.definitions true false
          = .ok m ∧
      m.build = .ok a ∧ InfoAnswers.ofArtifact a = .ok answers ∧
      answers.AreOf "Greeter" Greeter.location Greeter.attributes ∧
      (∀ d, d ∈ ds ↔ Greeter.definitions.get? d.pair = some d) ∧ a.Describes answers ds := by
  obtain ⟨m, a, hm, ha⟩ := Greeter.exists_build
  exact ⟨m, a, (describes_of_build hm ha).imp fun _ h => h.imp fun _ h => ⟨hm, ha, h⟩⟩

end Assembly
end ModuleBuild
