import ModuleBuild.Failure.Basic
import ModuleBuild.OrderedMap

/-! # Definition tables

The definitions of one module.  The first definition of a pair fixes its kind and
location; later ones of that kind add clauses, and one of another kind is
refused.  A private definition counts as reachable once its pair has been
recorded as used, before or after its definition.

`DefinitionStore` adds the module's life to a `DefinitionTable`: after `destroy`
nothing can be defined or looked up any more.
-/
namespace ModuleBuild

/-- A definition. -/
structure Definition where
  kind : DefinitionKind
  pair : NameArity
  /-- The clauses in the order they were defined. -/
  clauses : List Value
  /-- Where the first clause stands. -/
  location : Location

/-- The definitions of a module that is being compiled. -/
structure DefinitionTable where
  definitions : OrderedMap NameArity Definition
  /-- The pairs recorded as used. -/
  locals : List NameArity
  /-- Every definition stands under its own pair. -/
  keyed : ∀ e ∈ definitions.entries, e.2.pair = e.1

/-- A module's definitions by kind. -/
structure DefinitionSummary where
  functions : List NameArity
  privateFunctions : List NameArity
  macros : List NameArity
  privateMacros : List NameArity
  /-- The public functions, and the public macros as they are called. -/
  exports : List NameArity
  /-- All definitions, in order of their pairs. -/
  all : List Definition
  /-- The private definitions not recorded as used. -/
  unreachable : List NameArity

namespace DefinitionTable

/-- The table without definitions. -/
def empty : DefinitionTable := ⟨.empty, [], fun _ h => nomatch h⟩

/-- The definition of a pair. -/
def get? (t : DefinitionTable) (p : NameArity) : Option Definition := t.definitions.get? p

/-- The table with a definition under its pair, in the place of the one that stands
there. -/
def put (t : DefinitionTable) (d : Definition) : DefinitionTable where
  definitions := t.definitions.insert d.pair d
  locals := t.locals
  keyed e h := by
    rcases Entries.mem_insert h with rfl | h
    · rfl
    · exact t.keyed e h

/-- Add a definition, or clauses to one of the same kind.  Answers the definition
as it is now, and whether it is new. -/
def define (t : DefinitionTable) (d : Definition) :
    Except Problem (Definition × Bool × DefinitionTable) :=
  match t.get? d.pair with
  | none => .ok (d, true, t.put d)
  | some old =>
    if old.kind = d.kind then
      let grown := { old with clauses := old.clauses ++ d.clauses }
      .ok (grown, false, t.put grown)
    else
      .error ⟨.kindClash d.kind d.pair old.kind old.location, some d.location⟩

/-- Record a pair as used. -/
def recordLocal (t : DefinitionTable) (p : NameArity) : DefinitionTable :=
  if t.locals.contains p then t else { t with locals := t.locals ++ [p] }

/-- The pairs defined as a kind, in order of definition. -/
def pairsOf (t : DefinitionTable) (k : DefinitionKind) : List NameArity :=
  (t.definitions.values.filter fun d => d.kind = k).map Definition.pair

/-- The definitions by kind. -/
def summary (t : DefinitionTable) : DefinitionSummary where
  functions := NameArity.sorted (t.pairsOf .function)
  privateFunctions := NameArity.sorted (t.pairsOf .privateFunction)
  macros := NameArity.sorted (t.pairsOf .macroFunction)
  privateMacros := NameArity.sorted (t.pairsOf .privateMacro)
  exports := NameArity.sorted
    (t.pairsOf .function ++ (t.pairsOf .macroFunction).map NameArity.dispatch)
  all := NameArity.sortBy Definition.pair t.definitions.values
  unreachable := NameArity.sorted <|
    (t.definitions.values.filter fun d => !d.kind.isPublic && !t.locals.contains d.pair).map
      Definition.pair

end DefinitionTable

/-- The definitions of a module, or nothing once it is no longer compiled. -/
structure DefinitionStore where
  module : String
  table : Option DefinitionTable

namespace DefinitionStore

/-- A store without definitions. -/
def new (module : String) : DefinitionStore := ⟨module, some .empty⟩

/-- The store once its module is no longer compiled. -/
def destroy (s : DefinitionStore) : DefinitionStore := { s with table := none }

/-- The table of a store that has not been destroyed. -/
def live (s : DefinitionStore) : Except Condition DefinitionTable :=
  match s.table with
  | some t => .ok t
  | none => .error (.moduleNotOpen s.module)

/-- How many definitions there are; none in a destroyed store. -/
def size (s : DefinitionStore) : Nat := (s.table.map fun t => t.definitions.size).getD 0

/-- Add a definition, or clauses to one of the same kind. -/
def define (s : DefinitionStore) (d : Definition) :
    Except Problem (Definition × Bool × DefinitionStore) :=
  match s.live with
  | .error c => .error { condition := c }
  | .ok t => do
    let (d, isNew, t) ← t.define d
    .ok (d, isNew, { s with table := some t })

/-- Record a pair as used. -/
def recordLocal (s : DefinitionStore) (p : NameArity) : Except Condition DefinitionStore := do
  let t ← s.live
  .ok { s with table := some (t.recordLocal p) }

end DefinitionStore
end ModuleBuild
