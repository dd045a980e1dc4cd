import ModuleBuild.Artifact.Documentation
import ModuleBuild.Proofs.Artifact.Content
import ModuleBuild.Proofs.Term.Reading

/-! # The documentation chunk

What an assembled module is built into has no chunk of documentation (`docs_not_mem_ids_of_build`).
Adding a chunk puts it after the others, which stay as they are (`Artifact.chunks_of_inject`), and
the documentation that is added is read back entry by entry (`documentation_of_inject`).
-/
namespace ModuleBuild

/-- The identifier of the chunk that keeps the documentation. -/
def Chunk.docsId : String := "Docs"

/-- The chunks of an artifact other than the documentation. -/
def Artifact.undocumented (a : Artifact) : List Chunk :=
  a.chunks.filter fun c => c.id ≠ Chunk.docsId

theorem Chunk.ids_of_holds {es : List (String × Value)} {cs : List Chunk}
    (h : List.Forall₂ Holds es cs) : cs.map Chunk.id = es.map Prod.fst := by
  induction h with
  | nil => rfl
  | cons hc _ ih => rw [List.map_cons, List.map_cons, ih, hc.1]

/-- The identifiers of the chunks that a module is built into. -/
theorem Assembly.ids_of_build {m : Assembly} {a : Artifact} (h : m.build = .ok a) :
    a.ids = ["Modl", "ExpT", "Code", "Type", "Spec", "Attr", "CInf", "Info"]
      ++ if m.options.debugInfo then ["Dbgi"] else [] := by
  obtain ⟨code, -, hall⟩ := holds_of_build h
  rw [Artifact.ids, Chunk.ids_of_holds hall, values, otherValues]
  cases m.options.debugInfo <;> rfl

theorem Assembly.docs_not_mem_ids_of_build {m : Assembly} {a : Artifact} (h : m.build = .ok a) :
    Chunk.docsId ∉ a.ids := by
  rw [ids_of_build h]
  cases m.options.debugInfo <;> decide

/-- A chunk that is added stands after the others. -/
theorem Artifact.chunks_of_inject {a a' : Artifact} {id : String}
    {payload : Except Failure Bytes} {owner : ChunkOwner}
    (h : a.inject id payload owner = .ok a') :
    ∃ data, payload = .ok data ∧ a'.chunks = a.chunks ++ [⟨id, data⟩] := by
  unfold inject at h
  cases payload with
  | error f => cases h
  | ok data =>
    simp only at h
    split at h
    · cases h
    · next b hb =>
      cases h
      obtain ⟨_, -, hb⟩ := bind_eq_ok.mp hb
      split at hb
      · cases hb
      · obtain ⟨binary, -, hb⟩ := bind_eq_ok.mp hb
        cases hb
        exact ⟨data, rfl, rfl⟩

/-- An artifact without documentation has no other chunks than those that are not it. -/
theorem Artifact.undocumented_eq_chunks {a : Artifact} (h : Chunk.docsId ∉ a.ids) :
    a.undocumented = a.chunks := by
  refine List.filter_eq_self.mpr fun c hc => decide_eq_true fun hid => h ?_
  rw [← hid]
  exact List.mem_map_of_mem hc

/-! ## Reading documentation back -/

/-- An entry as it is read back. -/
def DocEntry.stored {κ : Type} (e : DocEntry κ) : StoredDoc κ where
  kind := e.kind
  name := e.pair.name
  arity := .ofInt e.pair.arity
  line := e.line.unsignedZero
  doc := DocsDocument.orNull (Term.reading e.doc)

namespace DocsDocument

open Term

theorem stored?_reading {κ : Type} {kindOf? : String → Option κ} {word : κ → String}
    (hword : ∀ k, kindOf? (word k) = some k) (e : DocEntry κ) :
    stored? kindOf? (reading (e.toValue word)) = some e.stored := by
  have hread {name : String} {v : Value} (h : (e.toValue word).get name = v) :
      (reading (e.toValue word)).get name = reading v := by
    rw [← h]
    exact get_reading_record _ _
  have hget : (e.toValue word).get "name" = .text e.pair.name ∧
      (e.toValue word).get "arity" = .int e.pair.arity ∧
      (e.toValue word).get "line" = .number e.line ∧
      (e.toValue word).get "kind" = .text (word e.kind) ∧ (e.toValue word).get "doc" = e.doc := by
    simp [DocEntry.toValue, Value.get_record, Value.findField]
  obtain ⟨hname, harity, hline, hkind, hdoc⟩ := hget
  unfold stored?
  rw [hread hname, hread harity, hread hline, hread hkind, hread hdoc, reading_text, reading_int,
    reading_number, reading_text]
  simp only [Value.asText?, Value.int, Value.asNumber?, Option.bind_eq_bind, Option.bind_some,
    hword]
  rfl

/-- The entries of a table are read back in order of their pairs. -/
theorem entries_reading {κ : Type} {kindOf? : String → Option κ} {word : κ → String}
    (hword : ∀ k, kindOf? (word k) = some k) (m : OrderedMap NameArity (DocEntry κ)) :
    entries kindOf? (reading (DocTables.tableValue word m))
      = (NameArity.sortBy DocEntry.pair m.values).map DocEntry.stored := by
  rw [DocTables.tableValue, reading_list, entries, Value.asList?, Option.getD_some, List.map_map]
  induction NameArity.sortBy DocEntry.pair m.values with
  | nil => rfl
  | cons e rest ih =>
    rw [List.map_cons, List.filterMap_cons, Function.comp_apply, stored?_reading hword, ih,
      List.map_cons]

/-- **A document is read back entry by entry.** -/
theorem ofValue?_reading (t : DocTables) (moduledoc : ModuleDoc) :
    ofValue? (reading (t.toValue moduledoc)) = some
      { moduledoc := ⟨moduledoc.line.unsignedZero, orNull (reading moduledoc.doc)⟩
        docs := (NameArity.sortBy DocEntry.pair t.definitions.values).map DocEntry.stored
        callbackDocs := (NameArity.sortBy DocEntry.pair t.callbacks.values).map DocEntry.stored
        typeDocs := (NameArity.sortBy DocEntry.pair t.types.values).map DocEntry.stored } := by
  have hread {name : String} {v : Value} (h : (t.toValue moduledoc).get name = v) :
      (reading (t.toValue moduledoc)).get name = reading v := by
    rw [← h]
    exact get_reading_record _ _
  let head : List (String × Value) :=
    [("line", .number moduledoc.line), ("doc", moduledoc.doc)]
  have hget : (t.toValue moduledoc).get "version" = .text docsVersion ∧
      (t.toValue moduledoc).get "moduledoc" = .record head ∧
      (t.toValue moduledoc).get "docs" = DocTables.tableValue DefinitionKind.word t.definitions ∧
      (t.toValue moduledoc).get "callbackDocs"
        = DocTables.tableValue CallbackKind.key t.callbacks ∧
      (t.toValue moduledoc).get "typeDocs" = DocTables.tableValue TypeKind.key t.types := by
    simp [DocTables.toValue, Value.get_record, Value.findField, head]
  have hhead : (Value.record head).get "line" = .number moduledoc.line ∧
      (Value.record head).get "doc" = moduledoc.doc := by
    simp [head, Value.get_record, Value.findField]
  obtain ⟨hversion, hmoduledoc, hdocs, hcallbacks, htypes⟩ := hget
  unfold ofValue?
  rw [hread hversion, hread hmoduledoc, hread hdocs, hread hcallbacks, hread htypes,
    get_reading_record, get_reading_record, hhead.1, hhead.2, reading_text, reading_number,
    entries_reading fun k => by cases k <;> rfl, entries_reading fun k => by cases k <;> rfl,
    entries_reading fun k => by cases k <;> rfl]
  rfl

end DocsDocument

/-- **Documentation that is added to an artifact is read back.** -/
theorem Artifact.documentation_of_inject {a a' : Artifact} {v : Value} {owner : ChunkOwner}
    (h : a.inject Chunk.docsId (Term.payload v) owner = .ok a') (hdocs : Chunk.docsId ∉ a.ids) :
    a'.documentation = .ok (DocsDocument.ofValue? (Term.reading v)) := by
  obtain ⟨data, hpayload, hchunks⟩ := chunks_of_inject h
  have hencode : Term.encode v = .ok data := by
    unfold Term.payload at hpayload
    split at hpayload
    · next bytes hbytes =>
      cases hpayload
      exact hbytes
    · cases hpayload
  have hnone : a.chunks.find? (fun c => c.id = Chunk.docsId) = none := by
    refine List.find?_eq_none.mpr fun c hc hid => hdocs ?_
    rw [← of_decide_eq_true hid]
    exact List.mem_map_of_mem hc
  have hread : a'.read? Chunk.docsId = some data := by
    rw [read?, hchunks, List.find?_append, hnone]
    rfl
  unfold documentation
  rw [show "Docs" = Chunk.docsId from rfl, hread]
  simp only [Term.decode_of_encode hencode]

end ModuleBuild
