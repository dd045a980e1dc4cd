import ModuleBuild.Form.Eval
import ModuleBuild.Proofs.Registry.Operations

/-! # Uses of an entry

What a client does with the stores of an entry that it holds, as data: each use
either answers and leaves a state of the entry, or is refused with a problem.  Uses of
the attributes and the definitions are refused once these are gone.  Two things can be
had of an entry at any time: the number of its definitions (`DefinitionStore.size`),
which is zero then, and what concerns its documentation.
-/
namespace ModuleBuild

/-- A use of the attributes and definitions of an entry, for which these must be
there. -/
inductive StoreUse where
  | declare (key : String) (policy : AttributePolicy)
  | write (key : String) (value : Value)
  | delete (key : String)
  /-- Look something up in the attributes, whatever it is. -/
  | queryAttributes (query : AttributeTable → Value)
  | define (d : Definition)
  | recordLocal (pair : NameArity)
  /-- Look something up in the definitions, whatever it is. -/
  | queryDefinitions (query : DefinitionTable → Value)

namespace StoreUse

/-- What comes of a use: an answer and the state that it leaves, or a problem. -/
def apply (s : ModuleState) : StoreUse → Except Problem (Value × ModuleState)
  | declare key p => changed (s.attributes.declare key p)
  | write key v => changed (s.attributes.write key v)
  | delete key => changed (s.attributes.delete key)
  | queryAttributes query => match s.attributes.live with
    | .ok t => .ok (query t, s)
    | .error c => .error { condition := c }
  | define d => match s.definitions.define d with
    | .ok (d, isNew, definitions) => .ok (d.outcome isNew, { s with definitions })
    | .error p => .error p
  | recordLocal pair => match s.definitions.recordLocal pair with
    | .ok definitions => .ok (.undefined, { s with definitions })
    | .error c => .error { condition := c }
  | queryDefinitions query => match s.definitions.live with
    | .ok t => .ok (query t, s)
    | .error c => .error { condition := c }
where
  changed : Except Condition AttributeStore → Except Problem (Value × ModuleState)
    | .ok attributes => .ok (.undefined, { s with attributes })
    | .error c => .error { condition := c }

/-- Stores that are gone refuse every use. -/
theorem refused_of_hasNoStores (u : StoreUse) {e : ModuleEntry} (he : e.HasNoStores) :
    ∃ p, u.apply e.toModuleState = .error p ∧ p.condition.code.id = "MODF-R005" := by
  have hattributes : e.attributes.live = .error (.moduleNotOpen e.attributes.module) := by
    rw [AttributeStore.live, he.attributes]
  have hdefinitions : e.definitions.live = .error (.moduleNotOpen e.definitions.module) := by
    rw [DefinitionStore.live, he.definitions]
  have hmodify (f : AttributeTable → Except Condition AttributeTable) :
      e.attributes.modify f = .error (.moduleNotOpen e.attributes.module) := by
    rw [AttributeStore.modify, hattributes]
    rfl
  cases u with
  | declare key p => exact ⟨_, by rw [apply, AttributeStore.declare, hmodify]; rfl, rfl⟩
  | write key v => exact ⟨_, by rw [apply, AttributeStore.write, hmodify]; rfl, rfl⟩
  | delete key => exact ⟨_, by rw [apply, AttributeStore.delete, hmodify]; rfl, rfl⟩
  | queryAttributes query => exact ⟨_, by rw [apply, hattributes], rfl⟩
  | define d => exact ⟨_, by rw [apply, DefinitionStore.define, hdefinitions], rfl⟩
  | recordLocal pair =>
    exact ⟨_, by rw [apply, DefinitionStore.recordLocal, hdefinitions]; rfl, rfl⟩
  | queryDefinitions query => exact ⟨_, by rw [apply, hdefinitions], rfl⟩

end StoreUse

/-- A use of an entry: of its stores, or of its documentation. -/
inductive EntryUse where
  | store (use : StoreUse)
  | documentDefinition (entry : DocEntry DefinitionKind)
  | documentCallback (entry : DocEntry CallbackKind)
  | documentType (entry : DocEntry TypeKind)
  /-- Look something up in the entry, whatever it is. -/
  | query (query : ModuleEntry → Value)

/-- What comes of a use of an entry: an answer and the state that it leaves, or a
problem. -/
def EntryUse.apply (e : ModuleEntry) : EntryUse → Except Problem (Value × ModuleState)
  | store u => u.apply e.toModuleState
  | documentDefinition d => documented (e.docs.addDefinition d)
  | documentCallback d => documented (e.docs.addCallback d)
  | documentType d => documented (e.docs.addType d)
  | query q => .ok (q e, e.toModuleState)
where
  documented (docs : DocTables) : Except Problem (Value × ModuleState) :=
    .ok (.undefined, { e.toModuleState with docs })

/-- What is no use of the stores answers, of whatever entry. -/
theorem EntryUse.exists_answer {u : EntryUse} (h : ∀ s, u ≠ .store s) (e : ModuleEntry) :
    ∃ answer, u.apply e = .ok answer := by
  cases u with
  | store s => exact absurd rfl (h s)
  | documentDefinition | documentCallback | documentType | query => exact ⟨_, rfl⟩

end ModuleBuild
