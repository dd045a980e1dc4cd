import ModuleBuild.Text.Units
import ModuleBuild.Value.Basic

/-! # Names with arities

A definition is known by its name and arity.  Such pairs are ordered by name, in
unit order, and then by arity.
-/
namespace ModuleBuild

/-- The kinds of definitions. -/
inductive DefinitionKind where
  | function
  | privateFunction
  | macroFunction
  | privateMacro
  deriving DecidableEq, Repr

namespace DefinitionKind

/-- All kinds. -/
def all : List DefinitionKind := [function, privateFunction, macroFunction, privateMacro]

/-- The word that defines a kind. -/
def word : DefinitionKind → String
  | function => "def"
  | privateFunction => "defp"
  | macroFunction => "defmacro"
  | privateMacro => "defmacrop"

/-- The kind that a word defines. -/
def ofWord? (w : String) : Option DefinitionKind := all.find? fun k => k.word = w

/-- Kinds that other modules can call. -/
def isPublic : DefinitionKind → Bool
  | function => true
  | macroFunction => true
  | _ => false

/-- Kinds that are expanded. -/
def isMacro : DefinitionKind → Bool
  | macroFunction => true
  | privateMacro => true
  | _ => false

end DefinitionKind

/-- A name and a number of parameters. -/
structure NameArity where
  name : String
  arity : Int
  deriving DecidableEq, Repr, Inhabited

namespace NameArity

/-- A pair as `name/arity`. -/
def key (p : NameArity) : String := p.name ++ "/" ++ toString p.arity

/-- The name under which a macro is called. -/
def dispatchName (name : String) : String := "MACRO-" ++ name

/-- What a macro is called as: under its dispatch name, with the caller's context
as an extra first parameter. -/
def dispatch (p : NameArity) : NameArity := ⟨dispatchName p.name, p.arity + 1⟩

/-- The order of pairs: by name, then by arity. -/
def compare (a b : NameArity) : Ordering :=
  (Text.compareUnits a.name b.name).then (Ord.compare a.arity b.arity)

section Sorting

variable {α : Type}

/-- Things in the order of their pairs; those with equal pairs keep their places. -/
def sortBy (pair : α → NameArity) (l : List α) : List α :=
  l.mergeSort fun a b => (compare (pair a) (pair b)).isLE

end Sorting

/-- Pairs in order, each once. -/
def sorted (l : List NameArity) : List NameArity := sortBy id l.eraseDups

/-- A pair as a value. -/
def toValue (p : NameArity) : Value :=
  .record [("name", .text p.name), ("arity", .int p.arity)]

end NameArity
end ModuleBuild
