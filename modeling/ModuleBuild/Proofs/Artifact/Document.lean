import ModuleBuild.Proofs.Artifact.Documentation
import ModuleBuild.Proofs.Artifact.Shape
import ModuleBuild.Proofs.Value.Kinds

/-! # Which documents are read

The payload of a documentation chunk may be anything.  A document is given exactly if it reads
as one of the known version (`DocsDocument.ofValue?_eq_some_iff`).  Of the three lists of a
document those items are given that are well-formed entries, in their order, and the others are
passed over (`Skims`).  Only a payload that is no term fails.
-/
namespace ModuleBuild

/-- A kind is found by its word if all kinds are searched and no two have the same word. -/
theorem find?_word_eq_some_iff {κ : Type} {all : List κ} {word : κ → String}
    (hall : ∀ k, k ∈ all) (hword : Function.Injective word) {w : String} {k : κ} :
    (all.find? fun k => word k = w) = some k ↔ word k = w := by
  constructor
  · intro h
    exact of_decide_eq_true (List.find?_some h :)
  · intro h
    have hsome : (all.find? fun k => word k = w).isSome :=
      List.find?_isSome.mpr ⟨k, hall k, decide_eq_true h⟩
    obtain ⟨k', hk'⟩ := Option.isSome_iff_exists.mp hsome
    have hword' : word k' = w := of_decide_eq_true (List.find?_some hk' :)
    rw [hk', hword (hword'.trans h.symm)]

theorem DefinitionKind.ofWord?_eq_some_iff {w : String} {k : DefinitionKind} :
    ofWord? w = some k ↔ k.word = w :=
  find?_word_eq_some_iff (fun k => by cases k <;> decide)
    fun k k' => by cases k <;> cases k' <;> decide

theorem CallbackKind.ofKey?_eq_some_iff {w : String} {k : CallbackKind} :
    ofKey? w = some k ↔ k.key = w :=
  find?_word_eq_some_iff (fun k => by cases k <;> decide)
    fun k k' => by cases k <;> cases k' <;> decide

theorem TypeKind.ofKey?_eq_some_iff {w : String} {k : TypeKind} :
    ofKey? w = some k ↔ k.key = w :=
  find?_word_eq_some_iff (fun k => by cases k <;> decide)
    fun k k' => by cases k <;> cases k' <;> decide

namespace DocsDocument

/-! ## Entries -/

section Entries

variable {κ : Type} (word : κ → String)

/-- A value is a well-formed entry, and says this. -/
structure IsEntry (v : Value) (e : StoredDoc κ) : Prop where
  name : v.get "name" = .text e.name
  arity : v.get "arity" = .number e.arity
  line : v.get "line" = .number e.line
  kind : v.get "kind" = .text (word e.kind)
  doc : e.doc = orNull (v.get "doc")

/-- The well-formed entries among some values, in their order. -/
inductive Skims : List Value → List (StoredDoc κ) → Prop
  | nil : Skims [] []
  | keep {v : Value} {e : StoredDoc κ} {vs : List Value} {es : List (StoredDoc κ)} :
      IsEntry word v e → Skims vs es → Skims (v :: vs) (e :: es)
  | skip {v : Value} {vs : List Value} {es : List (StoredDoc κ)} :
      (∀ e, ¬IsEntry word v e) → Skims vs es → Skims (v :: vs) es

/-- The well-formed entries of a value: those of its items if it is a list, else none. -/
inductive HasEntries : Value → List (StoredDoc κ) → Prop
  | list {vs : List Value} {es : List (StoredDoc κ)} : Skims word vs es → HasEntries (.list vs) es
  | other {v : Value} : (∀ vs, v ≠ .list vs) → HasEntries v []

variable {word} {kindOf? : String → Option κ}

theorem stored?_eq_some_iff (hword : ∀ w k, kindOf? w = some k ↔ word k = w) {v : Value}
    {e : StoredDoc κ} : stored? kindOf? v = some e ↔ IsEntry word v e := by
  constructor
  · intro h
    simp only [stored?, Option.bind_eq_bind, Option.bind_eq_some_iff] at h
    obtain ⟨name, hname, arity, harity, line, hline, kind, ⟨w, hw, hkind⟩, h⟩ := h
    cases h
    exact
      { name := Value.asText?_eq_some_iff.mp hname
        arity := Value.asNumber?_eq_some_iff.mp harity
        line := Value.asNumber?_eq_some_iff.mp hline
        kind := by rw [Value.asText?_eq_some_iff.mp hw, (hword w kind).mp hkind]
        doc := rfl }
  · rintro ⟨hname, harity, hline, hkind, hdoc⟩
    have hkindOf : kindOf? (word e.kind) = some e.kind := (hword _ _).mpr rfl
    simp only [stored?, hname, harity, hline, hkind, Value.asText?, Value.asNumber?, hkindOf,
      Option.bind_eq_bind, Option.bind_some, ← hdoc]

theorem filterMap_eq_iff (hword : ∀ w k, kindOf? w = some k ↔ word k = w) {vs : List Value}
    {es : List (StoredDoc κ)} : vs.filterMap (stored? kindOf?) = es ↔ Skims word vs es := by
  induction vs generalizing es with
  | nil =>
    constructor
    · rintro rfl
      exact .nil
    · rintro ⟨⟩
      rfl
  | cons v rest ih =>
    rw [List.filterMap_cons]
    cases hstored : stored? kindOf? v with
    | none =>
      have hnot (e : StoredDoc κ) : ¬IsEntry word v e := fun he =>
        nomatch hstored.symm.trans ((stored?_eq_some_iff hword).mpr he)
      constructor
      · exact fun h => .skip hnot (ih.mp h)
      · intro h
        cases h with
        | keep he _ => exact absurd he (hnot _)
        | skip _ hrest => exact ih.mpr hrest
    | some e =>
      have he : IsEntry word v e := (stored?_eq_some_iff hword).mp hstored
      constructor
      · rintro rfl
        exact .keep he (ih.mp rfl)
      · intro h
        cases h with
        | keep he' hrest =>
          cases hstored.symm.trans ((stored?_eq_some_iff hword).mpr he')
          exact congrArg _ (ih.mpr hrest)
        | skip hnot _ => exact absurd he (hnot e)

/-- **The entries of a list are its well-formed items.** -/
theorem entries_eq_iff (hword : ∀ w k, kindOf? w = some k ↔ word k = w) {v : Value}
    {es : List (StoredDoc κ)} : entries kindOf? v = es ↔ HasEntries word v es := by
  cases hlist : v.asList? with
  | none =>
    rw [entries, hlist]
    constructor
    · rintro rfl
      exact .other (Value.asList?_eq_none_iff.mp hlist)
    · rintro ⟨⟩
      · cases hlist
      · rfl
  | some vs =>
    obtain rfl := Value.asList?_eq_some_iff.mp hlist
    rw [entries, hlist, Option.getD_some, filterMap_eq_iff hword]
    constructor
    · exact .list
    · intro h
      cases h with
      | list h => exact h
      | other hnot => exact absurd rfl (hnot vs)

/-- What is given of a list is what its items say. -/
theorem HasEntries.exists_isEntry {v : Value} {es : List (StoredDoc κ)}
    (h : HasEntries word v es) {e : StoredDoc κ} (he : e ∈ es) : ∃ v', IsEntry word v' e := by
  cases h with
  | other _ => cases he
  | list h =>
    induction h with
    | nil => cases he
    | skip _ _ ih => exact ih he
    | keep hentry _ ih =>
      rcases List.mem_cons.mp he with rfl | he
      · exact ⟨_, hentry⟩
      · exact ih he

end Entries

/-! ## Documents -/

/-- A value is a document of the known version. -/
structure IsVersioned (v : Value) : Prop where
  version : v.get "version" = .text docsVersion
  line : ∃ line, (v.get "moduledoc").get "line" = .number line

/-- A value is a document of the known version, and says this. -/
structure IsDocument (v : Value) (d : DocsDocument) : Prop where
  version : v.get "version" = .text docsVersion
  line : (v.get "moduledoc").get "line" = .number d.moduledoc.line
  doc : d.moduledoc.doc = orNull ((v.get "moduledoc").get "doc")
  docs : HasEntries DefinitionKind.word (v.get "docs") d.docs
  callbackDocs : HasEntries CallbackKind.key (v.get "callbackDocs") d.callbackDocs
  typeDocs : HasEntries TypeKind.key (v.get "typeDocs") d.typeDocs

theorem docs_eq_iff {v : Value} {es : List (StoredDoc DefinitionKind)} :
    entries DefinitionKind.ofWord? v = es ↔ HasEntries DefinitionKind.word v es :=
  entries_eq_iff fun _ _ => DefinitionKind.ofWord?_eq_some_iff

theorem callbackDocs_eq_iff {v : Value} {es : List (StoredDoc CallbackKind)} :
    entries CallbackKind.ofKey? v = es ↔ HasEntries CallbackKind.key v es :=
  entries_eq_iff fun _ _ => CallbackKind.ofKey?_eq_some_iff

theorem typeDocs_eq_iff {v : Value} {es : List (StoredDoc TypeKind)} :
    entries TypeKind.ofKey? v = es ↔ HasEntries TypeKind.key v es :=
  entries_eq_iff fun _ _ => TypeKind.ofKey?_eq_some_iff

/-- **What is read** is what a value says that is a document of the known version. -/
theorem ofValue?_eq_some_iff {v : Value} {d : DocsDocument} :
    ofValue? v = some d ↔ IsDocument v d := by
  constructor
  · intro h
    obtain ⟨version, hversion, h⟩ := Option.bind_eq_some_iff.mp h
    split at h
    · next heq =>
      subst heq
      obtain ⟨line, hline, h⟩ := Option.bind_eq_some_iff.mp h
      cases h
      exact
        { version := Value.asText?_eq_some_iff.mp hversion
          line := Value.asNumber?_eq_some_iff.mp hline
          doc := rfl
          docs := docs_eq_iff.mp rfl
          callbackDocs := callbackDocs_eq_iff.mp rfl
          typeDocs := typeDocs_eq_iff.mp rfl }
    · cases h
  · rintro ⟨hversion, hline, hdoc, hdocs, hcallbackDocs, htypeDocs⟩
    rw [ofValue?, hversion, hline, docs_eq_iff.mpr hdocs, callbackDocs_eq_iff.mpr hcallbackDocs,
      typeDocs_eq_iff.mpr htypeDocs, ← hdoc]
    rfl

theorem ofValue?_eq_none_iff {v : Value} : ofValue? v = none ↔ ¬IsVersioned v := by
  constructor
  · rintro hnone ⟨hversion, line, hline⟩
    rw [ofValue?, hversion, hline] at hnone
    cases hnone
  · intro hnot
    refine Option.eq_none_iff_forall_ne_some.mpr fun d hd => hnot ?_
    have h := ofValue?_eq_some_iff.mp hd
    exact ⟨h.version, _, h.line⟩

/-! ## What is given is well-formed -/

/-- A record with a name, an arity, a line, a kind among some and documentation. -/
structure IsWellFormed (kinds : List String) (v : Value) : Prop where
  name : ∃ s, v.get "name" = .text s
  arity : ∃ x, v.get "arity" = .number x
  line : ∃ x, v.get "line" = .number x
  kind : ∃ w ∈ kinds, v.get "kind" = .text w
  doc : v.get "doc" ≠ .undefined

/-- Every entry of the document is well-formed, and of a kind that its list is of. -/
structure HoldsEntries (d : Value) : Prop where
  docs : ∀ v ∈ d.listAt "docs", IsWellFormed ["def", "defp", "defmacro", "defmacrop"] v
  callbackDocs : ∀ v ∈ d.listAt "callbackDocs", IsWellFormed ["callback", "macrocallback"] v
  typeDocs : ∀ v ∈ d.listAt "typeDocs", IsWellFormed ["type", "typep", "opaque"] v

theorem orNull_ne_undefined (v : Value) : orNull v ≠ .undefined := by
  unfold orNull
  split
  · intro h
    cases h
  · next h => exact h

theorem IsEntry.isWellFormed {κ : Type} {word : κ → String} {v : Value} {e : StoredDoc κ}
    (h : IsEntry word v e) {kinds : List String} (hkinds : ∀ k, word k ∈ kinds) :
    IsWellFormed kinds (storedValue word e) where
  name := ⟨e.name, by simp [storedValue, Value.get_record, Value.findField]⟩
  arity := ⟨e.arity, by simp [storedValue, Value.get_record, Value.findField]⟩
  line := ⟨e.line, by simp [storedValue, Value.get_record, Value.findField]⟩
  kind := ⟨word e.kind, hkinds e.kind,
    by simp [storedValue, Value.get_record, Value.findField]⟩
  doc := by
    have hdoc : (storedValue word e).get "doc" = orNull (v.get "doc") := by
      simp [storedValue, Value.get_record, Value.findField, h.doc]
    rw [hdoc]
    exact orNull_ne_undefined _

theorem HasEntries.isWellFormed {κ : Type} {word : κ → String} {v : Value}
    {es : List (StoredDoc κ)} (h : HasEntries word v es) {kinds : List String}
    (hkinds : ∀ k, word k ∈ kinds) :
    ∀ item ∈ es.map (storedValue word), IsWellFormed kinds item := by
  intro item hitem
  obtain ⟨e, he, rfl⟩ := List.mem_map.mp hitem
  obtain ⟨v', hv'⟩ := h.exists_isEntry he
  exact hv'.isWellFormed hkinds

/-- **Whatever is read as a document, its entries are well-formed.** -/
theorem IsDocument.holdsEntries {v : Value} {d : DocsDocument} (h : IsDocument v d) :
    HoldsEntries d.toValue := by
  have hlists : d.toValue.listAt "docs" = d.docs.map (storedValue DefinitionKind.word) ∧
      d.toValue.listAt "callbackDocs" = d.callbackDocs.map (storedValue CallbackKind.key) ∧
      d.toValue.listAt "typeDocs" = d.typeDocs.map (storedValue TypeKind.key) := by
    simp [toValue, Value.listAt, Value.get_record, Value.findField, Value.asList?]
  obtain ⟨hdocs, hcallbackDocs, htypeDocs⟩ := hlists
  constructor
  · rw [hdocs]
    exact h.docs.isWellFormed fun k => by cases k <;> decide
  · rw [hcallbackDocs]
    exact h.callbackDocs.isWellFormed fun k => by cases k <;> decide
  · rw [htypeDocs]
    exact h.typeDocs.isWellFormed fun k => by cases k <;> decide

end DocsDocument

/-! ## The documentation of an artifact -/

namespace Artifact

open DocsDocument

theorem documentation_of_missing {a : Artifact} (h : a.read? Chunk.docsId = none) :
    a.documentation = .ok none := by
  unfold documentation
  rw [show "Docs" = Chunk.docsId from rfl, h]

theorem documentation_of_undecodable {a : Artifact} {payload : Bytes}
    (hread : a.read? Chunk.docsId = some payload) (hdecode : Term.decode payload = none) :
    a.documentation = .error .unreadable := by
  unfold documentation
  rw [show "Docs" = Chunk.docsId from rfl, hread]
  simp only [hdecode]

theorem documentation_of_content {a : Artifact} {v : Value}
    (h : a.content? Chunk.docsId = some v) : a.documentation = .ok (ofValue? v) := by
  obtain ⟨payload, hread, hdecode⟩ := Option.bind_eq_some_iff.mp h
  unfold documentation
  rw [show "Docs" = Chunk.docsId from rfl, hread]
  simp only [hdecode]

/-- The chunk is missing, or it is no term, or it holds a value. -/
theorem documentation_cases (a : Artifact) :
    (a.read? Chunk.docsId = none ∧ a.documentation = .ok none) ∨
      (∃ payload, a.read? Chunk.docsId = some payload ∧ Term.decode payload = none ∧
        a.documentation = .error .unreadable) ∨
      ∃ v, a.content? Chunk.docsId = some v ∧ a.documentation = .ok (ofValue? v) := by
  cases hread : a.read? Chunk.docsId with
  | none => exact Or.inl ⟨rfl, documentation_of_missing hread⟩
  | some payload =>
    cases hdecode : Term.decode payload with
    | none =>
      exact Or.inr (Or.inl ⟨payload, rfl, hdecode, documentation_of_undecodable hread hdecode⟩)
    | some v =>
      have hcontent : a.content? Chunk.docsId = some v :=
        Option.bind_eq_some_iff.mpr ⟨payload, hread, hdecode⟩
      exact Or.inr (Or.inr ⟨v, hcontent, documentation_of_content hcontent⟩)

/-- Documentation is given exactly of a value that is a document. -/
theorem documentation_eq_some_iff {a : Artifact} {d : DocsDocument} :
    a.documentation = .ok (some d) ↔ ∃ v, a.content? Chunk.docsId = some v ∧ IsDocument v d := by
  constructor
  · intro h
    rcases documentation_cases a with ⟨-, hdocs⟩ | ⟨payload, -, -, hdocs⟩ | ⟨v, hcontent, hdocs⟩
    · cases hdocs.symm.trans h
    · cases hdocs.symm.trans h
    · exact ⟨v, hcontent, ofValue?_eq_some_iff.mp (Except.ok.inj (hdocs.symm.trans h))⟩
  · rintro ⟨v, hcontent, hv⟩
    rw [documentation_of_content hcontent, ofValue?_eq_some_iff.mpr hv]

/-- There is none exactly if the chunk is missing or holds something else. -/
theorem documentation_eq_none_iff {a : Artifact} :
    a.documentation = .ok none ↔ a.read? Chunk.docsId = none ∨
      ∃ v, a.content? Chunk.docsId = some v ∧ ¬IsVersioned v := by
  constructor
  · intro h
    rcases documentation_cases a with
      ⟨hread, -⟩ | ⟨payload, -, -, hdocs⟩ | ⟨v, hcontent, hdocs⟩
    · exact Or.inl hread
    · cases hdocs.symm.trans h
    · exact Or.inr
        ⟨v, hcontent, ofValue?_eq_none_iff.mp (Except.ok.inj (hdocs.symm.trans h))⟩
  · rintro (hread | ⟨v, hcontent, hv⟩)
    · exact documentation_of_missing hread
    · rw [documentation_of_content hcontent, ofValue?_eq_none_iff.mpr hv]

/-- Only a payload that is no term fails. -/
theorem documentation_eq_error_iff {a : Artifact} {e : ContentError} :
    a.documentation = .error e ↔ e = .unreadable ∧
      ∃ payload, a.read? Chunk.docsId = some payload ∧ Term.decode payload = none := by
  constructor
  · intro h
    rcases documentation_cases a with
      ⟨-, hdocs⟩ | ⟨payload, hread, hdecode, hdocs⟩ | ⟨v, -, hdocs⟩
    · cases hdocs.symm.trans h
    · cases hdocs.symm.trans h
      exact ⟨rfl, payload, hread, hdecode⟩
    · cases hdocs.symm.trans h
  · rintro ⟨rfl, payload, hread, hdecode⟩
    exact documentation_of_undecodable hread hdecode

/-- **What is read of the documentation chunk of an artifact, whatever it holds.**  A document
is given exactly if the chunk decodes to one of the known version, and it has those items of the
three lists that are well-formed entries, in their order; each entry that is given has a name,
an arity, a line, a kind that its list is of and documentation.  None is given exactly if the
chunk is missing or decodes to anything else.  A chunk that is no term at all fails: one that is
no JSON text, or that holds a tagged integer that is none. -/
theorem documentation_laws (a : Artifact) :
    (∀ d, a.documentation = .ok (some d) ↔
      ∃ v, a.content? Chunk.docsId = some v ∧ IsDocument v d) ∧
    (∀ d, a.documentation = .ok (some d) → HoldsEntries d.toValue) ∧
    (a.documentation = .ok none ↔ a.read? Chunk.docsId = none ∨
      ∃ v, a.content? Chunk.docsId = some v ∧ ¬IsVersioned v) ∧
    (∀ e, a.documentation = .error e ↔ e = .unreadable ∧
      ∃ payload, a.read? Chunk.docsId = some payload ∧
        ∀ j, Json.parse (Utf8.decode payload) = some j → Term.HoldsBadInteger j) := by
  refine ⟨fun d => documentation_eq_some_iff, ?_, documentation_eq_none_iff, ?_⟩
  · intro d h
    obtain ⟨v, -, hv⟩ := documentation_eq_some_iff.mp h
    exact hv.holdsEntries
  · intro e
    simp only [documentation_eq_error_iff, Term.decode_eq_none_iff]

/-- A document of three definitions, of which only the last is a well-formed entry. -/
def skimmedDocs : Json :=
  .object [("version", .text docsVersion),
    ("moduledoc", .object [("line", .number (.ofInt 1))]),
    ("docs", .list [.null, .object [("name", .text "g")],
      .object [("name", .text "f"), ("arity", .number (.ofInt 0)), ("line", .number (.ofInt 2)),
        ("kind", .text "def")]])]

/-- A chunk that is no JSON text fails, and of a document whose items are not all well-formed
those are given that are. -/
theorem documentation_laws_unread :
    documentation ⟨[], [⟨Chunk.docsId, Utf8.encode "not json"⟩]⟩ = .error .unreadable ∧
      ∃ d, documentation ⟨[], [⟨Chunk.docsId, Utf8.encode skimmedDocs.render⟩]⟩ = .ok (some d) ∧
        d.docs.map StoredDoc.name = ["f"] ∧ HoldsEntries d.toValue := by
  have hread (payload : Bytes) :
      read? ⟨[], [⟨Chunk.docsId, payload⟩]⟩ Chunk.docsId = some payload := by
    simp [read?]
  constructor
  · refine ((documentation_laws _).2.2.2 _).mpr ⟨rfl, _, hread _, fun j hj => ?_⟩
    have hnone : Json.parse "not json" = none := by decide +kernel
    rw [Utf8.decode_encode, hnone] at hj
    cases hj
  · have hdecode : Term.decode (Utf8.encode skimmedDocs.render)
        = Term.untag skimmedDocs.canonical := by
      rw [Term.decode, Utf8.decode_encode, Json.parse_render]
      rfl
    obtain ⟨v, d, hv, hd, hnames⟩ : ∃ v d, Term.untag skimmedDocs.canonical = some v ∧
        ofValue? v = some d ∧ d.docs.map StoredDoc.name = ["f"] :=
      ⟨_, _, rfl, rfl, rfl⟩
    have hcontent : content? ⟨[], [⟨Chunk.docsId, Utf8.encode skimmedDocs.render⟩]⟩
        Chunk.docsId = some v :=
      Option.bind_eq_some_iff.mpr ⟨_, hread _, hdecode.trans hv⟩
    have hok := ((documentation_laws _).1 d).mpr ⟨v, hcontent, ofValue?_eq_some_iff.mp hd⟩
    exact ⟨d, hok, hnames, (documentation_laws _).2.1 d hok⟩

end Artifact
end ModuleBuild
