import ModuleBuild.Attribute.Policy
import ModuleBuild.Failure.Basic
import ModuleBuild.OrderedMap

/-! # Attribute stores

The attributes of one module, in the order in which their keys were first written.
`AttributeTable` holds the values and policies of a module that is being compiled.
`AttributeStore` adds the module's life: after `destroy` nothing can be read or
written any more.

The policies are kept with the values: the control cells list the keys whose writes
accumulate and the keys whose values persist.  A key that begins with `$` is the
compiler's own and cannot be written.
-/
namespace ModuleBuild

/-- What a key holds. -/
inductive AttributeCell where
  /-- The keys that a control key lists. -/
  | control (keys : List String)
  | single (value : Value)
  | accumulated (values : List Value)

namespace AttributeCell

/-- The values in a cell, in the order they were written. -/
def values : AttributeCell → List Value
  | control _ => []
  | single v => [v]
  | accumulated vs => vs

/-- What a cell shows: the value, or the list of values.  A control cell shows nothing. -/
def shown? : AttributeCell → Option Value
  | control _ => none
  | single v => some v
  | accumulated vs => some (.list vs)

end AttributeCell

namespace AttributeTable

/-- Keys that belong to the compiler. -/
def isReserved (key : String) : Bool := key.toList.head? = some '$'

/-- The control key that lists the keys whose writes accumulate. -/
def accumulateKey : String := "$accumulate"

/-- The control key that lists the keys whose values persist. -/
def persistKey : String := "$persist"

/-- Both control keys hold the keys that they list. -/
structure Controls (cells : OrderedMap String AttributeCell) : Prop where
  accumulating : ∃ keys, cells.get? accumulateKey = some (.control keys)
  persisted : ∃ keys, cells.get? persistKey = some (.control keys)

end AttributeTable

/-- The attributes of a module that is being compiled. -/
structure AttributeTable where
  cells : OrderedMap String AttributeCell
  controls : AttributeTable.Controls cells

namespace AttributeTable

/-- The keys that a control key lists. -/
def controlKeys (t : AttributeTable) (key : String) : List String :=
  match t.cells.get? key with
  | some (.control keys) => keys
  | _ => []

/-- The policies of the keys. -/
def policies (t : AttributeTable) : PolicyTable :=
  ⟨t.controlKeys accumulateKey, t.controlKeys persistKey⟩

/-- Cells whose control keys list the keys of a policy table. -/
def controlCells (cells : OrderedMap String AttributeCell) (policies : PolicyTable) :
    OrderedMap String AttributeCell :=
  (cells.insert accumulateKey (.control policies.accumulating)).insert persistKey
    (.control policies.persisted)

theorem get?_controlCells_accumulateKey (cells : OrderedMap String AttributeCell)
    (policies : PolicyTable) : (controlCells cells policies).get? accumulateKey
      = some (.control policies.accumulating) := by
  rw [controlCells, OrderedMap.get?_insert, if_neg (by decide), OrderedMap.get?_insert, if_pos rfl]

theorem get?_controlCells_persistKey (cells : OrderedMap String AttributeCell)
    (policies : PolicyTable) : (controlCells cells policies).get? persistKey
      = some (.control policies.persisted) := by
  rw [controlCells, OrderedMap.get?_insert, if_pos rfl]

/-- The table of cells, with these policies. -/
def ofCells (cells : OrderedMap String AttributeCell) (policies : PolicyTable) :
    AttributeTable where
  cells := controlCells cells policies
  controls := ⟨⟨_, get?_controlCells_accumulateKey ..⟩, ⟨_, get?_controlCells_persistKey ..⟩⟩

/-- The table without values. -/
def ofPolicies (policies : PolicyTable) : AttributeTable := ofCells .empty policies

/-- The cells with another cell at a key, or with none. -/
def cellsWith (cells : OrderedMap String AttributeCell) (key : String) :
    Option AttributeCell → OrderedMap String AttributeCell
  | some cell => cells.insert key cell
  | none => cells.erase key

theorem get?_cellsWith (cells : OrderedMap String AttributeCell) (key k : String)
    (cell : Option AttributeCell) :
    (cellsWith cells key cell).get? k = if key = k then cell else cells.get? k := by
  cases cell with
  | some cell => exact OrderedMap.get?_insert cells key k cell
  | none => exact OrderedMap.get?_erase cells key k

/-- The table with another cell at a user's key, or with none. -/
def setCell (t : AttributeTable) (key : String) (cell : Option AttributeCell)
    (hkey : ¬isReserved key = true) : AttributeTable where
  cells := cellsWith t.cells key cell
  controls := by
    have hne {k : String} (hk : isReserved k = true) : key ≠ k := by
      rintro rfl
      exact hkey hk
    constructor
    · rw [get?_cellsWith, if_neg (hne (by decide))]
      exact t.controls.accumulating
    · rw [get?_cellsWith, if_neg (hne (by decide))]
      exact t.controls.persisted

/-- The values under a key, in the order they were written. -/
def readAll (t : AttributeTable) (key : String) : List Value :=
  ((t.cells.get? key).map AttributeCell.values).getD []

/-- What a key reads as: the list of its values if writes to it accumulate, else
its value, `undefined` if it has none. -/
def read (t : AttributeTable) (key : String) : Value :=
  match t.policies.accumulates key, t.cells.get? key with
  | true, some (.accumulated vs) => .list vs
  | true, _ => .list []
  | false, some (.single v) => v
  | false, _ => .undefined

/-- Whether a key holds a value. -/
def has (t : AttributeTable) (key : String) : Bool := !(t.readAll key).isEmpty

/-- Give a key a policy.  Whether its writes accumulate cannot change while it
holds a value. -/
def declare (t : AttributeTable) (key : String) (p : AttributePolicy) :
    Except Condition AttributeTable :=
  if hkey : isReserved key = true then .error (.keyReserved key)
  else if t.has key ∧ t.policies.accumulates key ≠ p.accumulate then
    .error (.policyChanged key p.accumulate)
  else
    let declared := ofCells t.cells (t.policies.declare key p)
    .ok <|
      match p.accumulate, t.cells.get? key with
      | true, some (.accumulated _) => declared
      | true, _ => declared.setCell key (some (.accumulated [])) hkey
      | false, some (.accumulated _) => declared.setCell key none hkey
      | false, _ => declared

/-- Write a value: after the earlier ones if writes to the key accumulate, else in
their place. -/
def write (t : AttributeTable) (key : String) (v : Value) : Except Condition AttributeTable :=
  if hkey : isReserved key = true then .error (.keyReserved key)
  else
    let cell :=
      match t.policies.accumulates key, t.cells.get? key with
      | true, some (.accumulated vs) => .accumulated (vs ++ [v])
      | true, _ => .accumulated [v]
      | false, _ => .single v
    .ok (t.setCell key (some cell) hkey)

/-- Take the values of a key away; its policy stays. -/
def delete (t : AttributeTable) (key : String) : Except Condition AttributeTable :=
  if hkey : isReserved key = true then .error (.keyReserved key)
  else
    let cell :=
      match t.cells.get? key with
      | some (.accumulated _) => some (.accumulated [])
      | _ => none
    .ok (t.setCell key cell hkey)

/-- The users' keys and what they show, in order. -/
def entries (t : AttributeTable) : List (String × Value) :=
  t.cells.entries.filterMap fun e => e.2.shown?.map fun v => (e.1, v)

end AttributeTable

/-- The attributes of a module, or nothing once it is no longer compiled. -/
structure AttributeStore where
  module : String
  table : Option AttributeTable

namespace AttributeStore

/-- A store without values. -/
def new (module : String) (policies : PolicyTable) : AttributeStore :=
  ⟨module, some (.ofPolicies policies)⟩

/-- Whether the store has been destroyed. -/
def isDestroyed (s : AttributeStore) : Bool := s.table.isNone

/-- The store once its module is no longer compiled. -/
def destroy (s : AttributeStore) : AttributeStore := { s with table := none }

/-- The table of a store that has not been destroyed. -/
def live (s : AttributeStore) : Except Condition AttributeTable :=
  match s.table with
  | some t => .ok t
  | none => .error (.moduleNotOpen s.module)

/-- Change the table of a store that has not been destroyed. -/
def modify (s : AttributeStore) (f : AttributeTable → Except Condition AttributeTable) :
    Except Condition AttributeStore := do
  let t ← f (← s.live)
  .ok { s with table := some t }

/-- Give a key a policy. -/
def declare (s : AttributeStore) (key : String) (p : AttributePolicy) :
    Except Condition AttributeStore :=
  s.modify (·.declare key p)

/-- Write a value. -/
def write (s : AttributeStore) (key : String) (v : Value) : Except Condition AttributeStore :=
  s.modify (·.write key v)

/-- Take the values of a key away. -/
def delete (s : AttributeStore) (key : String) : Except Condition AttributeStore :=
  s.modify (·.delete key)

end AttributeStore
end ModuleBuild
