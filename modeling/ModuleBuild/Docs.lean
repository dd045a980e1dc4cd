import ModuleBuild.Attribute.Store
import ModuleBuild.Diagnostic
import ModuleBuild.OrderedMap
import ModuleBuild.Term
import ModuleBuild.Typespec.Declaration

/-! # Documentation

The documentation gathered while a module is compiled, and the document that its
artifact keeps.  Each of the three tables keeps one entry per name and arity, the
first.  `DocsDocument.ofValue?` reads a document back; entries that are not
well-formed are passed over, and a value of another version is no document.
-/
namespace ModuleBuild

/-- The documentation of a definition, callback or type. -/
structure DocEntry (κ : Type) where
  kind : κ
  pair : NameArity
  line : Number
  doc : Value

/-- An entry as a value. -/
def DocEntry.toValue {κ : Type} (word : κ → String) (e : DocEntry κ) : Value :=
  .record [("kind", .text (word e.kind)), ("name", .text e.pair.name),
    ("arity", .int e.pair.arity), ("line", .number e.line), ("doc", e.doc)]

/-- The documentation of a module. -/
structure ModuleDoc where
  line : Number
  doc : Value

/-- The entries gathered for a module. -/
structure DocTables where
  definitions : OrderedMap NameArity (DocEntry DefinitionKind)
  callbacks : OrderedMap NameArity (DocEntry CallbackKind)
  types : OrderedMap NameArity (DocEntry TypeKind)

/-- The version of the documents that artifacts keep. -/
def docsVersion : String := "modforge_docs_v1"

namespace DocTables

/-- No entries. -/
def empty : DocTables := ⟨.empty, .empty, .empty⟩

/-- Add an entry for a definition, unless its pair has one. -/
def addDefinition (t : DocTables) (e : DocEntry DefinitionKind) : DocTables :=
  { t with definitions := t.definitions.insertNew e.pair e }

/-- Add an entry for a callback, unless its pair has one. -/
def addCallback (t : DocTables) (e : DocEntry CallbackKind) : DocTables :=
  { t with callbacks := t.callbacks.insertNew e.pair e }

/-- Add an entry for a type, unless its pair has one. -/
def addType (t : DocTables) (e : DocEntry TypeKind) : DocTables :=
  { t with types := t.types.insertNew e.pair e }

/-- The entries of a table as values, in order of their pairs. -/
def tableValue {κ : Type} (word : κ → String) (m : OrderedMap NameArity (DocEntry κ)) : Value :=
  .list ((NameArity.sortBy DocEntry.pair m.values).map (DocEntry.toValue word))

/-- The document that an artifact keeps. -/
def toValue (t : DocTables) (moduledoc : ModuleDoc) : Value :=
  .record [("version", .text docsVersion),
    ("moduledoc", .record [("line", .number moduledoc.line), ("doc", moduledoc.doc)]),
    ("docs", tableValue DefinitionKind.word t.definitions),
    ("callbackDocs", tableValue CallbackKind.key t.callbacks),
    ("typeDocs", tableValue TypeKind.key t.types)]

end DocTables

/-- An entry as read from a document. -/
structure StoredDoc (κ : Type) where
  kind : κ
  name : String
  arity : Number
  line : Number
  doc : Value

/-- A document as read from an artifact. -/
structure DocsDocument where
  moduledoc : ModuleDoc
  docs : List (StoredDoc DefinitionKind)
  callbackDocs : List (StoredDoc CallbackKind)
  typeDocs : List (StoredDoc TypeKind)

namespace DocsDocument

/-- Documentation that was never given reads as null. -/
def orNull : Value → Value
  | .undefined => .null
  | v => v

section Entries

variable {κ : Type} (kindOf? : String → Option κ)

/-- The entry that a value is, if it is well-formed. -/
def stored? (v : Value) : Option (StoredDoc κ) := do
  let name ← (v.get "name").asText?
  let arity ← (v.get "arity").asNumber?
  let line ← (v.get "line").asNumber?
  let kind ← (v.get "kind").asText?.bind kindOf?
  some { kind, name, arity, line, doc := orNull (v.get "doc") }

/-- The well-formed entries of a list. -/
def entries (v : Value) : List (StoredDoc κ) :=
  (v.asList?.getD []).filterMap (stored? kindOf?)

end Entries

/-- The document that a value is, if it is one of the known version. -/
def ofValue? (v : Value) : Option DocsDocument := do
  let version ← (v.get "version").asText?
  if version = docsVersion then
    let line ← ((v.get "moduledoc").get "line").asNumber?
    some
      { moduledoc := { line, doc := orNull ((v.get "moduledoc").get "doc") }
        docs := entries DefinitionKind.ofWord? (v.get "docs")
        callbackDocs := entries CallbackKind.ofKey? (v.get "callbackDocs")
        typeDocs := entries TypeKind.ofKey? (v.get "typeDocs") }
  else none

/-- An entry as a value. -/
def storedValue {κ : Type} (word : κ → String) (e : StoredDoc κ) : Value :=
  .record [("name", .text e.name), ("arity", .number e.arity), ("line", .number e.line),
    ("kind", .text (word e.kind)), ("doc", e.doc)]

/-- A document as a value. -/
def toValue (d : DocsDocument) : Value :=
  .record [("version", .text docsVersion),
    ("moduledoc", .record [("line", .number d.moduledoc.line), ("doc", d.moduledoc.doc)]),
    ("docs", .list (d.docs.map (storedValue DefinitionKind.word))),
    ("callbackDocs", .list (d.callbackDocs.map (storedValue CallbackKind.key))),
    ("typeDocs", .list (d.typeDocs.map (storedValue TypeKind.key)))]

end DocsDocument

/-- A warning per documentation that nothing has taken up. -/
def AttributeTable.unusedDocs (t : AttributeTable) (location : Location) : List Diagnostic :=
  let warn (code : Code) (key : String) : List Diagnostic :=
    if t.has key then [{ code, location, context := [("attribute", key)] }] else []
  warn .docUnused "doc" ++ warn .typedocUnused "typedoc"

end ModuleBuild
