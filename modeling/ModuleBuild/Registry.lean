import ModuleBuild.Attribute.Store
import ModuleBuild.CodeSession
import ModuleBuild.Definition.Table
import ModuleBuild.Docs
import ModuleBuild.Phase
import ModuleBuild.Text.Blank

/-! # The registry of open modules

A module is open while it is compiled.  Opening it draws a new *ticket*, under
which its entry is kept; only the holder of the ticket can close it.  Closing
destroys the entry's stores and, unless the name was opened again in between,
takes the name out of the table of open modules.
-/
namespace ModuleBuild

/-- Names that no module can have. -/
def reservedModules : List String := ["Any", "BitString", "Function", "PID", "Reference"]

/-- Module names hold no blanks and are not empty. -/
def isValidModuleName (name : String) : Bool :=
  !name.isEmpty && name.toList.all fun c => !Text.isBlank c

/-- The target of the hooks that the compiler itself provides. -/
def compilerHookModule : String := "$compiler"

/-- What changes of a module while it is compiled. -/
structure ModuleState where
  phase : Phase
  attributes : AttributeStore
  definitions : DefinitionStore
  docs : DocTables

/-- The state of a module that is no longer compiled.  What was documented after the
stores were destroyed stays. -/
def ModuleState.destroy (s : ModuleState) : ModuleState :=
  { s with
    attributes := s.attributes.destroy
    definitions := s.definitions.destroy
    docs := if s.attributes.isDestroyed then s.docs else .empty }

/-- What is known of a module while it is compiled. -/
structure ModuleEntry extends ModuleState where
  module : String
  sessionId : String
  location : Location

namespace ModuleEntry

/-- The built-in hook that takes up the documentation of a definition, or drops
it. -/
def docHook (withDocs : Bool) : Value :=
  .record [("module", .text compilerHookModule),
    ("function", .text (if withDocs then "compile_doc" else "delete_doc"))]

/-- The attributes that every module starts with. -/
def initialAttributes (withDocs : Bool) : AttributeTable :=
  ((AttributeTable.ofPolicies .initial).setCell "moduledoc" (some (.single .null))
      (by decide)).setCell "on_definition" (some (.accumulated [docHook withDocs])) (by decide)

/-- The entry of a module that is being opened. -/
def new (module sessionId : String) (location : Location) (withDocs : Bool) : ModuleEntry where
  module := module
  sessionId := sessionId
  location := location
  phase := .evaluating
  attributes := ⟨module, some (initialAttributes withDocs)⟩
  definitions := .new module
  docs := .empty

/-- Change the state of an entry; whose entry it is stays. -/
def change (f : ModuleState → ModuleState) (e : ModuleEntry) : ModuleEntry :=
  { e with toModuleState := f e.toModuleState }

/-- The entry of a module that is no longer compiled. -/
def destroy (e : ModuleEntry) : ModuleEntry := e.change ModuleState.destroy

@[simp] theorem new_module (m s : String) (l : Location) (d : Bool) :
    (new m s l d).module = m := rfl

@[simp] theorem new_location (m s : String) (l : Location) (d : Bool) :
    (new m s l d).location = l := rfl

@[simp] theorem change_module (f : ModuleState → ModuleState) (e : ModuleEntry) :
    (e.change f).module = e.module := rfl

@[simp] theorem change_location (f : ModuleState → ModuleState) (e : ModuleEntry) :
    (e.change f).location = e.location := rfl

@[simp] theorem change_state (f : ModuleState → ModuleState) (e : ModuleEntry) :
    (e.change f).toModuleState = f e.toModuleState := rfl

@[simp] theorem destroy_module (e : ModuleEntry) : e.destroy.module = e.module := rfl

@[simp] theorem destroy_destroy (e : ModuleEntry) : e.destroy.destroy = e.destroy := rfl

end ModuleEntry

/-- The number of an entry, in order of opening. -/
abbrev Ticket : Type := Nat

/-- All entries ever made, and the names of the open ones. -/
structure Registry where
  /-- The tickets of the open modules, in the order of their opening. -/
  opened : OrderedMap String Ticket
  entries : List ModuleEntry
  /-- An open name is that of the entry under its ticket. -/
  named : ∀ m t, opened.get? m = some t → entries[t]?.map ModuleEntry.module = some m

namespace Registry

/-- No modules. -/
def empty : Registry := ⟨.empty, [], fun _ _ h => nomatch h⟩

/-- The entry under a ticket. -/
def find? (r : Registry) (t : Ticket) : Option ModuleEntry := r.entries[t]?

theorem module_modify (l : List ModuleEntry) (t u : Ticket) (f : ModuleState → ModuleState) :
    (l.modify t (ModuleEntry.change f))[u]?.map ModuleEntry.module
      = l[u]?.map ModuleEntry.module := by
  rw [List.getElem?_modify]
  cases l[u]? with
  | none => rfl
  | some e => by_cases h : t = u <;> simp [h]

/-- Change the state of the entry under a ticket. -/
def update (r : Registry) (t : Ticket) (f : ModuleState → ModuleState) : Registry where
  opened := r.opened
  entries := r.entries.modify t (ModuleEntry.change f)
  named m u h := by rw [module_modify]; exact r.named m u h

/-- Whether a module is open. -/
def isOpen (r : Registry) (module : String) : Bool := r.opened.contains module

/-- The entry of an open module. -/
def lookup (r : Registry) (module : String) : Option ModuleEntry :=
  (r.opened.get? module).bind r.find?

/-- The names of the open modules, in order. -/
def openModules (r : Registry) : List String := Text.sort r.opened.keys

/-- Why a name cannot be opened at all. -/
def refusal? (module : String) : Option Condition :=
  if !isValidModuleName module then some (.moduleNameInvalid module)
  else if reservedModules.contains module then some (.moduleReserved module)
  else none

/-- The warning that a module is loaded already, if it is. -/
def redefinition? (loaded : Option LoadedModule) (module : String) (location : Location) :
    Option Diagnostic :=
  loaded.map fun m =>
    { code := .moduleRedefined, location
      context := [("module", module), ("origin", m.origin.text)] }

/-- The registry with a new entry, open under the name that is not open yet. -/
def add (r : Registry) (e : ModuleEntry) : Registry where
  opened := r.opened.insert e.module r.entries.length
  entries := r.entries ++ [e]
  named m t h := by
    rw [OrderedMap.get?_insert] at h
    split at h
    next hm =>
      cases h
      simp [hm]
    next =>
      obtain ⟨e', he, -⟩ := Option.map_eq_some_iff.mp (r.named m t h)
      obtain ⟨ht, -⟩ := List.getElem?_eq_some_iff.mp he
      rw [List.getElem?_append_left ht]
      exact r.named m t h

/-- Open a module that can be opened and is not open. -/
def enrol (r : Registry) (module sessionId : String) (location : Location)
    (withDocs : Bool) : Except Problem (Ticket × Registry) :=
  match r.lookup module with
  | some current => .error ⟨.moduleBeingDefined module current.location, some location⟩
  | none => .ok (r.entries.length, r.add (.new module sessionId location withDocs))

/-- Open a module, given its loaded version if that is to be reported.  That it is
loaded already is reported even if it cannot be opened because it is open. -/
def openModule (r : Registry) (loaded : Option LoadedModule) (module sessionId : String)
    (location : Location) (withDocs : Bool) :
    Option Diagnostic × Except Problem (Ticket × Registry) :=
  match refusal? module with
  | some c => (none, .error ⟨c, some location⟩)
  | none => (redefinition? loaded module location, r.enrol module sessionId location withDocs)

/-- The registry in which a name is no longer open. -/
def forget (r : Registry) (module : String) : Registry where
  opened := r.opened.erase module
  entries := r.entries
  named m t h := by
    rw [OrderedMap.get?_erase] at h
    split at h
    · cases h
    · exact r.named m t h

/-- Destroy the entry under a ticket, and forget its name if it is this entry's.
Closing again does nothing. -/
def close (r : Registry) (t : Ticket) : Registry :=
  match r.find? t with
  | none => r
  | some e =>
    (if r.opened.get? e.module = some t then r.forget e.module else r).update t
      ModuleState.destroy

/-- What an attribute of an open module reads as. -/
def readAttribute (r : Registry) (module key : String) : Except Condition Value :=
  match r.lookup module with
  | none => .error (.moduleNotOpen module)
  | some e => do
    let t ← e.attributes.live
    .ok (t.read key)

end Registry
end ModuleBuild
