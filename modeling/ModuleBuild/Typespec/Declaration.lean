import ModuleBuild.Definition.Table
import ModuleBuild.Failure.Basic
import ModuleBuild.Typespec.Expr

/-! # Type and spec declarations

Types, specs and callbacks are declared by writing forms to attributes.  A form is
checked and turned into a declaration, which keeps the types as they were written.
Specs are then aimed at what they describe: the spec of a macro describes the
function that the macro is called as.
-/
namespace ModuleBuild

/-- The kinds of type declarations. -/
inductive TypeKind where
  | publicType
  | privateType
  | hiddenType
  deriving DecidableEq, Repr

namespace TypeKind

/-- All kinds, in the order their declarations are read. -/
def all : List TypeKind := [publicType, privateType, hiddenType]

/-- The attribute that declares a kind. -/
def key : TypeKind → String
  | publicType => "type"
  | privateType => "typep"
  | hiddenType => "opaque"

/-- The kind that an attribute declares. -/
def ofKey? (k : String) : Option TypeKind := all.find? fun t => t.key = k

end TypeKind

/-- The kinds of callbacks. -/
inductive CallbackKind where
  | function
  | macroFunction
  deriving DecidableEq, Repr

namespace CallbackKind

/-- All kinds, in the order their declarations are read. -/
def all : List CallbackKind := [function, macroFunction]

/-- The attribute that declares a kind. -/
def key : CallbackKind → String
  | function => "callback"
  | macroFunction => "macrocallback"

/-- The kind that an attribute declares. -/
def ofKey? (k : String) : Option CallbackKind := all.find? fun c => c.key = k

end CallbackKind

/-- What a spec form declares. -/
inductive SpecKind where
  | spec
  | callback (kind : CallbackKind)
  deriving DecidableEq, Repr

/-- The attribute that declares a kind. -/
def SpecKind.key : SpecKind → String
  | spec => "spec"
  | callback k => k.key

/-- One typing of a function. -/
structure SpecClause where
  params : List Value
  result : Value

/-- The typings of a function or callback. -/
structure SpecDeclaration where
  isCallback : Bool
  pair : NameArity
  line : Int
  clauses : List SpecClause

/-- A declared type. -/
structure TypeDeclaration where
  kind : TypeKind
  name : String
  params : List String
  line : Int
  definition : Value

namespace TypeDeclaration

/-- The name and number of parameters of a type. -/
def pair (d : TypeDeclaration) : NameArity := ⟨d.name, d.params.length⟩

/-- A type declaration as a value. -/
def toValue (d : TypeDeclaration) : Value :=
  .record [("kind", .text d.kind.key), ("name", .text d.name), ("arity", .int d.pair.arity),
    ("line", .int d.line), ("params", .list (d.params.map .text)), ("definition", d.definition)]

end TypeDeclaration

/-- A clause as a value. -/
def SpecClause.toValue (c : SpecClause) : Value :=
  .record [("params", .list c.params), ("result", c.result)]

namespace SpecDeclaration

/-- A spec declaration as a value. -/
def toValue (d : SpecDeclaration) : Value :=
  .record [("kind", .text (if d.isCallback then "callback" else "spec")),
    ("name", .text d.pair.name), ("arity", .int d.pair.arity), ("line", .int d.line),
    ("clauses", .list (d.clauses.map SpecClause.toValue))]

end SpecDeclaration

namespace Typespec

/-- How a form is named in a message: by its name, or by its text if it has
none. -/
def nameOf (form : Value) : Except Failure String :=
  match form.isRecord, form.get "name" with
  | true, .text n => .ok n
  | _, _ => form.toText.mapError .ofFault

/-- A form that cannot be read. -/
def malformed {α : Type} (key name reason : String) (location : Location) :
    Except Failure α :=
  .error (.ofProblem ⟨.typespecInvalid key name reason, some location⟩)

/-- A form that cannot be read and has no name. -/
def nameless {α : Type} (key : String) (form : Value) (reason : String) (location : Location) :
    Except Failure α := do
  malformed key (← nameOf form) reason location

/-- The name of a form. -/
def formName (key : String) (form : Value) (location : Location) : Except Failure String :=
  match form.get "name" with
  | .text n => .ok n
  | _ => nameless key form "expected a form with a name" location

/-- The line of a form: the one it gives, or the one it stands on. -/
def formLine (key name : String) (form : Value) (location : Location) : Except Failure Int :=
  match form.get "line" with
  | .undefined => .ok location.line
  | v =>
    match v.asInt? with
    | some l => .ok l
    | none => malformed key name "line must be an integer" location

/-- The texts, if all values of a list are texts. -/
def texts? : List Value → Option (List String)
  | [] => some []
  | .text s :: rest => (texts? rest).map (s :: ·)
  | _ :: _ => none

/-- The first of some variables that is not bound; `_` needs no binding. -/
def unbound? (bound used : List String) : Option String :=
  used.find? fun n => n ≠ "_" && !bound.contains n

/-- The declaration that a type form makes.  Every variable of its definition must
be one of its parameters. -/
def translateType (kind : TypeKind) (form : Value) (location : Location) :
    Except Failure TypeDeclaration := do
  let name ← formName kind.key form location
  let params ←
    match (form.get "params").asList?.bind texts? with
    | some ps => .ok ps
    | none => malformed kind.key name "parameters must be variable names" location
  let definition := form.get "definition"
  let type ←
    match TypeExpr.ofValue? definition with
    | some t => .ok t
    | none => malformed kind.key name "definition must be a type expression" location
  let line ← formLine kind.key name form location
  match unbound? params type.varNames with
  | some v => malformed kind.key name ("type variable " ++ v ++ " is unbound") location
  | none => .ok { kind, name, params, line, definition }

/-- The name, parameters, result and line of a spec form. -/
def readSpec (kind : SpecKind) (form : Value) (location : Location) :
    Except Failure (String × List Value × Value × Int) := do
  let name ← formName kind.key form location
  let params ←
    match (form.get "params").asList? with
    | some ps =>
      if ps.all TypeExpr.isWritten then .ok ps
      else malformed kind.key name "parameters must be type expressions" location
    | none => malformed kind.key name "parameters must be type expressions" location
  let result := form.get "result"
  if TypeExpr.isWritten result then
    let line ← formLine kind.key name form location
    .ok (name, params, result, line)
  else malformed kind.key name "result must be a type expression" location

/-- A clause with the caller's context as an extra first parameter. -/
def SpecClause.dispatch (c : SpecClause) : SpecClause :=
  { c with params := TypeExpr.anyTerm :: c.params }

/-- The declaration that a spec form makes.  A macro callback declares the
function that the macro is called as. -/
def translateSpec (kind : SpecKind) (form : Value) (location : Location) :
    Except Failure SpecDeclaration := do
  let (name, params, result, line) ← readSpec kind form location
  let pair : NameArity := ⟨name, params.length⟩
  let clause : SpecClause := { params, result }
  .ok <|
    match kind with
    | .spec => { isCallback := false, pair, line, clauses := [clause] }
    | .callback .function => { isCallback := true, pair, line, clauses := [clause] }
    | .callback .macroFunction =>
      { isCallback := true, pair := pair.dispatch, line
        clauses := [SpecClause.dispatch clause] }

/-- Two declarations of the same thing as one: at the smaller line, with the
clauses of both. -/
def join (a b : SpecDeclaration) : SpecDeclaration :=
  { a with line := min a.line b.line, clauses := a.clauses ++ b.clauses }

/-- Add a declaration to the ones collected so far. -/
def collect (m : OrderedMap (Bool × NameArity) SpecDeclaration) (d : SpecDeclaration) :
    OrderedMap (Bool × NameArity) SpecDeclaration :=
  let k := (d.isCallback, d.pair)
  m.insert k (((m.get? k).map fun old => join old d).getD d)

/-- Declarations in order of their pairs, those of the same thing joined. -/
def mergeSpecs (ds : List SpecDeclaration) : List SpecDeclaration :=
  NameArity.sortBy SpecDeclaration.pair (ds.foldl collect .empty).values

/-- A spec aimed at what it describes: a public function, a private function in
use, or the function that a public macro is called as.  Nothing else can have a
spec. -/
def retarget (d : SpecDeclaration) (definitions : DefinitionSummary) :
    Option SpecDeclaration :=
  if definitions.functions.contains d.pair then some d
  else if definitions.macros.contains d.pair then
    some { d with pair := d.pair.dispatch, clauses := d.clauses.map SpecClause.dispatch }
  else if definitions.privateFunctions.contains d.pair
      && !definitions.unreachable.contains d.pair then some d
  else none

end Typespec
end ModuleBuild
