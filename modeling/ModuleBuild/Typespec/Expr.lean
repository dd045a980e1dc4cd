import ModuleBuild.Value.Measure

/-! # Type expressions

Types are written as values: records whose `kind` names one of eight forms.
`TypeExpr.ofValue?` reads such a value; fields that a form does not know are
passed over.
-/
namespace ModuleBuild

/-- A type. -/
inductive TypeExpr where
  | named (name : String) (args : Option (List TypeExpr))
  | remote (module name : String) (args : Option (List TypeExpr))
  | typeVar (name : String)
  | literal (value : Value)
  | union (members : List TypeExpr)
  | tuple (elements : List TypeExpr)
  | list (element : TypeExpr)
  | function (params : List TypeExpr) (result : TypeExpr)

namespace Value

/-- Values that a literal type can name. -/
def isLiteral : Value → Bool
  | null => true
  | text _ => true
  | number _ => true
  | bool _ => true
  | _ => false

end Value

namespace TypeExpr

mutual

/-- The type that a value is written as, if it is written as one. -/
def ofValue? : Value → Option TypeExpr
  | .fields fs =>
    match (Value.fields fs).get "kind", (Value.fields fs).get "name" with
    | .text "named", .text n => (argsOf? fs).map (named n)
    | .text "remote", .text n =>
      match (Value.fields fs).get "module" with
      | .text m => (argsOf? fs).map (remote m n)
      | _ => none
    | .text "var", .text n => some (typeVar n)
    | .text "literal", _ =>
      let v := (Value.fields fs).get "value"
      if v.isLiteral then some (literal v) else none
    | .text "union", _ => (listOf? fs "members").map union
    | .text "tuple", _ => (listOf? fs "elements").map tuple
    | .text "list", _ => (fieldOf? fs "element").map list
    | .text "fun", _ => do
      let params ← listOf? fs "params"
      let result ← fieldOf? fs "result"
      some (function params result)
    | _, _ => none
  | _ => none
termination_by v => (sizeOf v, 1)

/-- The type in a field. -/
def fieldOf? (fs : List (String × Value)) (name : String) : Option TypeExpr :=
  match _h : (Value.fields fs).get name with
  | .fields fs' => ofValue? (.fields fs')
  | _ => none
termination_by (sizeOf (Value.fields fs), 0)
decreasing_by
  have := Value.sizeOf_record_of_get _h
  exact Prod.Lex.left _ _ this

/-- The types in the list in a field. -/
def listOf? (fs : List (String × Value)) (name : String) : Option (List TypeExpr) :=
  match _h : (Value.fields fs).get name with
  | .list items => itemsOf? items
  | _ => none
termination_by (sizeOf (Value.fields fs), 0)
decreasing_by
  have := Value.sizeOf_list_of_get _h
  exact Prod.Lex.left _ _ this

/-- The arguments of a type, which may be left out. -/
def argsOf? (fs : List (String × Value)) : Option (Option (List TypeExpr)) :=
  match _h : (Value.fields fs).get "args" with
  | .undefined => some none
  | .list items => (itemsOf? items).map some
  | _ => none
termination_by (sizeOf (Value.fields fs), 0)
decreasing_by
  have := Value.sizeOf_list_of_get _h
  exact Prod.Lex.left _ _ this

/-- The types that a list's items are written as, if all are. -/
def itemsOf? : List Value → Option (List TypeExpr)
  | [] => some []
  | v :: rest => do
    let t ← ofValue? v
    let ts ← itemsOf? rest
    some (t :: ts)
termination_by vs => (sizeOf vs, 2)

end

mutual

/-- The names of a type's variables, in the order they occur. -/
def varNames : TypeExpr → List String
  | named _ args => optionVarNames args
  | remote _ _ args => optionVarNames args
  | typeVar n => [n]
  | literal _ => []
  | union ts => listVarNames ts
  | tuple ts => listVarNames ts
  | list t => t.varNames
  | function ts t => listVarNames ts ++ t.varNames

/-- The variables of a type's arguments. -/
def optionVarNames : Option (List TypeExpr) → List String
  | none => []
  | some ts => listVarNames ts

/-- The variables of several types. -/
def listVarNames : List TypeExpr → List String
  | [] => []
  | t :: ts => t.varNames ++ listVarNames ts

end

/-- Whether a value is written as a type. -/
def isWritten (v : Value) : Bool := (ofValue? v).isSome

/-- The type of any term. -/
def anyTerm : Value := .record [("kind", .text "named"), ("name", .text "term")]

end TypeExpr
end ModuleBuild
