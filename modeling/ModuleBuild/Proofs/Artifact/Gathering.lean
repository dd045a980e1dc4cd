import ModuleBuild.Proofs.Artifact.Documentation
import ModuleBuild.Proofs.Artifact.Layout
import ModuleBuild.Proofs.Artifact.Relocation
import ModuleBuild.Proofs.Definition.Order

/-! # Documentation that is gathered

Entries are added one by one to three tables, each of which keeps the first of every pair.  What
the tables keep is written in order of the pairs, and read back from the artifact that it is
added to (`DocTables.documentation_round_trip`): whatever the documentation says, no entry is
passed over.
-/
namespace ModuleBuild

namespace DocEntry

variable {κ : Type}

/-- Entries gathered in turn: of those of one pair the first. -/
def gather (m : OrderedMap NameArity (DocEntry κ)) (es : List (DocEntry κ)) :
    OrderedMap NameArity (DocEntry κ) :=
  es.foldl (fun m e => m.insertNew e.pair e) m

theorem get?_gather (m : OrderedMap NameArity (DocEntry κ))
    (es : List (DocEntry κ)) (p : NameArity) :
    (gather m es).get? p = (m.get? p).or (es.find? fun e => e.pair = p) := by
  induction es generalizing m with
  | nil => simp [gather]
  | cons e rest ih =>
    have hnew : (m.insertNew e.pair e).get? p
        = (m.get? p).or (if e.pair = p then some e else none) := by
      unfold OrderedMap.insertNew OrderedMap.contains
      by_cases hp : e.pair = p
      · subst hp
        cases hm : m.get? e.pair with
        | none => simp
        | some old => simp [hm]
      · cases (m.get? e.pair).isSome <;> simp [hp]
    rw [gather, List.foldl_cons, ← gather, ih, hnew, Option.or_assoc, List.find?_cons]
    by_cases hp : e.pair = p <;> simp [hp]

/-- What is kept of entries: of those of one pair the first, in order of the pairs. -/
def kept (es : List (DocEntry κ)) : List (StoredDoc κ) :=
  (NameArity.sortBy DocEntry.pair (gather .empty es).values).map stored

/-- The first entry of a pair is kept. -/
theorem mem_kept {e : DocEntry κ} {earlier later : List (DocEntry κ)}
    (hfirst : ∀ e' ∈ earlier, e'.pair ≠ e.pair) : e.stored ∈ kept (earlier ++ e :: later) := by
  have hget : (gather .empty (earlier ++ e :: later)).get? e.pair = some e := by
    have hnone : earlier.find? (fun e' => e'.pair = e.pair) = none :=
      List.find?_eq_none.mpr fun e' he' => by simpa using hfirst e' he'
    rw [get?_gather, OrderedMap.get?_empty, Option.none_or, List.find?_append, hnone]
    simp
  refine List.mem_map_of_mem ((NameArity.perm_sortBy _ _).mem_iff.mpr ?_)
  exact List.mem_map.mpr ⟨_, OrderedMap.mem_of_get? hget, rfl⟩

theorem get?_gathered (es : List (DocEntry κ)) (p : NameArity) :
    (gather .empty es).get? p = es.find? fun e => e.pair = p := by
  rw [get?_gather, OrderedMap.get?_empty, Option.none_or]

/-- Entries are gathered under their pairs. -/
theorem keyed_gathered {es : List (DocEntry κ)} {x : NameArity × DocEntry κ}
    (h : x ∈ (gather .empty es).entries) : x.2.pair = x.1 := by
  have hget := OrderedMap.mem_entries_iff.mp h
  rw [get?_gathered] at hget
  simpa using List.find?_some hget

/-- What is gathered are the entries that are the first of their pair. -/
theorem mem_values_gathered {es : List (DocEntry κ)} {e : DocEntry κ} :
    e ∈ (gather .empty es).values ↔ es.find? (fun e' => e'.pair = e.pair) = some e := by
  rw [← get?_gathered, ← OrderedMap.mem_entries_iff]
  constructor
  · intro h
    obtain ⟨x, hx, rfl⟩ := List.mem_map.mp h
    rwa [keyed_gathered hx]
  · intro h
    exact List.mem_map_of_mem h

/-- Entries as they are read back: of each pair the first that was added, in order of the
pairs. -/
def KeepsFirstOfEach (es : List (DocEntry κ)) (docs : List (StoredDoc κ)) : Prop :=
  ∃ first : List (DocEntry κ), docs = first.map stored ∧
    NameArity.Ascending (first.map pair) ∧
    ∀ e, e ∈ first ↔ es.find? (fun e' => e'.pair = e.pair) = some e

theorem keepsFirstOfEach_kept (es : List (DocEntry κ)) : KeepsFirstOfEach es (kept es) := by
  have hpairs : (gather .empty es).values.map pair = (gather .empty es).keys := by
    rw [OrderedMap.values, OrderedMap.keys, List.map_map]
    exact List.map_congr_left fun x hx => keyed_gathered hx
  refine ⟨_, rfl, ?_, fun e => ?_⟩
  · exact NameArity.ascending_map_sortBy _ _ (hpairs ▸ (gather .empty es).nodup)
  · rw [(NameArity.perm_sortBy _ _).mem_iff, mem_values_gathered]

/-- Entries can be written if their documentation can. -/
theorem writable_toValue {e : DocEntry κ} (word : κ → String) (h : Term.Writable e.doc) :
    Term.Writable (e.toValue word) := by
  apply Term.writable_record
  simp only [List.forall_mem_cons]
  exact ⟨⟨_, rfl⟩, ⟨_, rfl⟩, ⟨_, rfl⟩, ⟨_, rfl⟩, h, nofun⟩

theorem writable_tableValue {es : List (DocEntry κ)} (word : κ → String)
    (h : ∀ e ∈ es, Term.Writable e.doc) :
    Term.Writable (DocTables.tableValue word (gather .empty es)) := by
  rw [DocTables.tableValue, Term.writable_list_iff, List.forall_mem_map]
  intro e he
  rw [(NameArity.perm_sortBy _ _).mem_iff, mem_values_gathered] at he
  exact writable_toValue word (h e (List.mem_of_find?_eq_some he))

end DocEntry

/-- Documentation of a definition, a callback or a type. -/
inductive DocAddition where
  | definition (entry : DocEntry DefinitionKind)
  | callback (entry : DocEntry CallbackKind)
  | type (entry : DocEntry TypeKind)

namespace DocAddition

/-- What the documentation says. -/
def doc : DocAddition → Value
  | definition e => e.doc
  | callback e => e.doc
  | type e => e.doc

/-- The entry of a definition. -/
def definition? : DocAddition → Option (DocEntry DefinitionKind)
  | definition e => some e
  | _ => none

/-- The entry of a callback. -/
def callback? : DocAddition → Option (DocEntry CallbackKind)
  | callback e => some e
  | _ => none

/-- The entry of a type. -/
def type? : DocAddition → Option (DocEntry TypeKind)
  | type e => some e
  | _ => none

theorem doc_of_definition? {x : DocAddition} {e : DocEntry DefinitionKind}
    (h : x.definition? = some e) : e.doc = x.doc := by
  cases x <;> cases h
  rfl

theorem doc_of_callback? {x : DocAddition} {e : DocEntry CallbackKind}
    (h : x.callback? = some e) : e.doc = x.doc := by
  cases x <;> cases h
  rfl

theorem doc_of_type? {x : DocAddition} {e : DocEntry TypeKind} (h : x.type? = some e) :
    e.doc = x.doc := by
  cases x <;> cases h
  rfl

end DocAddition

namespace DocTables

/-- Add documentation to its table. -/
def add (t : DocTables) : DocAddition → DocTables
  | .definition e => t.addDefinition e
  | .callback e => t.addCallback e
  | .type e => t.addType e

/-- The tables after some additions. -/
def ofAdditions (xs : List DocAddition) : DocTables := xs.foldl add .empty

/-- Each table gathers the entries of its own. -/
theorem foldl_add (t : DocTables) (xs : List DocAddition) :
    xs.foldl add t =
      { definitions := DocEntry.gather t.definitions (xs.filterMap DocAddition.definition?)
        callbacks := DocEntry.gather t.callbacks (xs.filterMap DocAddition.callback?)
        types := DocEntry.gather t.types (xs.filterMap DocAddition.type?) } := by
  induction xs generalizing t with
  | nil => rfl
  | cons x rest ih =>
    rw [List.foldl_cons, ih]
    cases x <;> rfl

/-- The document of the tables can be written if everything in it can. -/
theorem writable_toValue {xs : List DocAddition} {moduledoc : ModuleDoc}
    (hmodule : Term.Writable moduledoc.doc) (hdocs : ∀ x ∈ xs, Term.Writable x.doc) :
    Term.Writable ((ofAdditions xs).toValue moduledoc) := by
  have hhead : Term.Writable
      (.record [("line", .number moduledoc.line), ("doc", moduledoc.doc)]) := by
    apply Term.writable_record
    simp only [List.forall_mem_cons]
    exact ⟨⟨_, rfl⟩, hmodule, nofun⟩
  have hentries {κ : Type} {own? : DocAddition → Option (DocEntry κ)}
      (hentry : ∀ x e, own? x = some e → e.doc = x.doc) :
      ∀ e ∈ xs.filterMap own?, Term.Writable e.doc := by
    intro e he
    obtain ⟨x, hx, hxe⟩ := List.mem_filterMap.mp he
    rw [hentry x e hxe]
    exact hdocs x hx
  rw [ofAdditions, foldl_add]
  apply Term.writable_record
  simp only [List.forall_mem_cons]
  exact ⟨⟨_, rfl⟩, hhead,
    DocEntry.writable_tableValue _ (hentries fun _ _ => DocAddition.doc_of_definition?),
    DocEntry.writable_tableValue _ (hentries fun _ _ => DocAddition.doc_of_callback?),
    DocEntry.writable_tableValue _ (hentries fun _ _ => DocAddition.doc_of_type?), nofun⟩

end DocTables

/-- A chunk with a new identifier is added to an artifact that was made of its chunks. -/
theorem Artifact.exists_inject {a : Artifact} {cs : List Chunk} {id : String} {v : Value}
    (ha : ofChunks cs = .ok a) (hid : Chunk.isValidId id = true) (hnew : id ∉ a.ids)
    (hv : Term.Writable v) (owner : ChunkOwner) :
    ∃ a', a.inject id (Term.payload v) owner = .ok a' := by
  obtain ⟨data, hdata⟩ := Term.exists_encode_iff.mpr hv
  have hpayload : Term.payload v = .ok data := by rw [Term.payload, hdata]
  have hids : ∀ id ∈ a.ids, Chunk.isValidId id = true := by
    obtain ⟨binary, hbinary, hmake⟩ := bind_eq_ok.mp ha
    cases hmake
    intro id hmem
    obtain ⟨c, hc, rfl⟩ := List.mem_map.mp hmem
    exact Chunk.exists_encode_iff.mp ⟨binary, hbinary⟩ c hc
  have hhas : a.has id = false := by
    rw [has, List.any_eq_false]
    intro c hc heq
    exact hnew (of_decide_eq_true heq ▸ List.mem_map_of_mem hc)
  obtain ⟨a', ha'⟩ := (Chunk.exists_withChunk_iff (c := ⟨id, data⟩) hid hhas).mpr hids
  exact ⟨a', by simp only [inject, hpayload, ha']⟩

namespace DocTables

open Term DocsDocument

/-- **Documentation goes into an artifact and comes back.**  Of all the entries that were added
for definitions, callbacks and types, each list that is read back has exactly the first of every
pair, in order of the pairs, as it was written: only the documentation itself is brought into
normal form, and reads as null if it was never given. -/
theorem documentation_round_trip {xs : List DocAddition} {moduledoc : ModuleDoc}
    {cs : List Chunk} {a : Artifact} (owner : ChunkOwner)
    (hdocs : ∀ x ∈ xs, ∃ data, encode x.doc = .ok data)
    (hmodule : ∃ data, encode moduledoc.doc = .ok data)
    (ha : Artifact.ofChunks cs = .ok a) (hnew : Chunk.docsId ∉ a.ids) :
    ∃ a' d, a.inject Chunk.docsId (payload ((ofAdditions xs).toValue moduledoc)) owner = .ok a' ∧
      a'.documentation = .ok (some d) ∧
      d.moduledoc = ⟨moduledoc.line.unsignedZero, orNull (reading moduledoc.doc)⟩ ∧
      DocEntry.KeepsFirstOfEach (xs.filterMap DocAddition.definition?) d.docs ∧
      DocEntry.KeepsFirstOfEach (xs.filterMap DocAddition.callback?) d.callbackDocs ∧
      DocEntry.KeepsFirstOfEach (xs.filterMap DocAddition.type?) d.typeDocs := by
  have hwritable : Writable ((ofAdditions xs).toValue moduledoc) :=
    writable_toValue (exists_encode_iff.mp hmodule) fun x hx => exists_encode_iff.mp (hdocs x hx)
  obtain ⟨a', ha'⟩ := Artifact.exists_inject ha (by decide) hnew hwritable owner
  have hread := Artifact.documentation_of_inject ha' hnew
  rw [ofValue?_reading, ofAdditions, foldl_add] at hread
  exact ⟨a', _, ha', hread, rfl, DocEntry.keepsFirstOfEach_kept _,
    DocEntry.keepsFirstOfEach_kept _, DocEntry.keepsFirstOfEach_kept _⟩

/-- Documentation that looks like a tag of the codec comes back as it is, and documentation that
was never given comes back as null and is not taken over by a later entry. -/
theorem documentation_round_trip_tagged :
    let tagLike : Value := .record [("$term", .text "undefined")]
    let xs : List DocAddition :=
      [.callback ⟨.function, ⟨"go", 0⟩, .ofInt 7, tagLike⟩,
        .definition ⟨.function, ⟨"run", 1⟩, .ofInt 3, .undefined⟩,
        .definition ⟨.macroFunction, ⟨"run", 1⟩, .ofInt 4, .text "later"⟩]
    ∃ a a' d, Artifact.ofChunks [⟨"Modl", []⟩] = .ok a ∧
      a.inject Chunk.docsId (payload ((ofAdditions xs).toValue ⟨.ofInt 1, .null⟩))
        ⟨"M", ⟨"f", 1⟩⟩ = .ok a' ∧
      a'.documentation = .ok (some d) ∧
      (∃ s ∈ d.callbackDocs, s.doc = tagLike) ∧
      (∃ s ∈ d.docs, s.line = .ofInt 3 ∧ s.doc = .null) := by
  intro tagLike xs
  have hencodable : ∀ x ∈ xs, ∃ data, encode x.doc = .ok data := by
    simp only [xs, List.forall_mem_cons]
    exact ⟨⟨_, rfl⟩, ⟨_, rfl⟩, ⟨_, rfl⟩, nofun⟩
  have hmodule : ∃ data, encode (ModuleDoc.mk (.ofInt 1) .null).doc = .ok data := ⟨_, rfl⟩
  obtain ⟨a, ha⟩ : ∃ a, Artifact.ofChunks [⟨"Modl", []⟩] = .ok a := ⟨_, rfl⟩
  have hnew : Chunk.docsId ∉ a.ids := by
    cases ha
    decide
  obtain ⟨a', d, hinject, hread, -, hdefinitions, hcallbacks, -⟩ :=
    documentation_round_trip ⟨"M", ⟨"f", 1⟩⟩ hencodable hmodule ha hnew
  refine ⟨a, a', d, ha, hinject, hread, ?_, ?_⟩
  · obtain ⟨first, hdocs, -, hmem⟩ := hcallbacks
    have he := (hmem ⟨.function, ⟨"go", 0⟩, .ofInt 7, tagLike⟩).mpr rfl
    exact ⟨_, hdocs ▸ List.mem_map_of_mem he, rfl⟩
  · obtain ⟨first, hdocs, -, hmem⟩ := hdefinitions
    have he := (hmem ⟨.function, ⟨"run", 1⟩, .ofInt 3, .undefined⟩).mpr rfl
    exact ⟨_, hdocs ▸ List.mem_map_of_mem he, rfl, rfl⟩

end DocTables
end ModuleBuild
