import ModuleBuild.Proofs.Value.Kinds
import ModuleBuild.Typespec.Expr

/-! # The grammar of types

Which values are types is said by a grammar of eight forms (`TypeExpr.Shape`): a type has one
of the forms, and its parts are types (`TypeExpr.IsType`).  Those values are read
(`isWritten_iff`).  The names of the variables that are read are those that occur in the value
(`mem_names_iff`), and the first of them with a property is the leftmost (`find?_names_iff`).
-/
namespace ModuleBuild

/-- Only a record has a text in a field. -/
theorem Value.exists_fields_of_get {v : Value} {name s : String} (h : v.get name = .text s) :
    ∃ fs, v = .fields fs := by
  cases v with
  | fields fs => exact ⟨fs, rfl⟩
  | _ => cases h

theorem Value.sizeOf_get_le (v : Value) (name : String) :
    v.get name = .undefined ∨ sizeOf (v.get name) < sizeOf v := by
  cases v with
  | fields fs => exact (sizeOf_get_lt fs name).symm
  | _ => exact Or.inl rfl

namespace TypeExpr

/-! ## The grammar -/

/-- The arguments in a field, which may be absent. -/
inductive Arguments : Value → List Value → Prop
  | absent : Arguments .undefined []
  | given (items : List Value) : Arguments (.list items) items

/-- A value that a type can name. -/
inductive IsLiteral : Value → Prop
  | null : IsLiteral .null
  | text (s : String) : IsLiteral (.text s)
  | number (x : Number) : IsLiteral (.number x)
  | bool (b : Bool) : IsLiteral (.bool b)

/-- A value has one of the forms of types, with these parts from left to right.  Fields that
the form does not name are of no account. -/
inductive Shape (v : Value) : List Value → Prop
  | named {name : String} {args : List Value} :
      v.get "kind" = .text "named" → v.get "name" = .text name →
      Arguments (v.get "args") args → Shape v args
  | remote {module name : String} {args : List Value} :
      v.get "kind" = .text "remote" → v.get "module" = .text module →
      v.get "name" = .text name → Arguments (v.get "args") args → Shape v args
  | typeVar {name : String} :
      v.get "kind" = .text "var" → v.get "name" = .text name → Shape v []
  | literal : v.get "kind" = .text "literal" → IsLiteral (v.get "value") → Shape v []
  | union {members : List Value} :
      v.get "kind" = .text "union" → v.get "members" = .list members → Shape v members
  | tuple {elements : List Value} :
      v.get "kind" = .text "tuple" → v.get "elements" = .list elements → Shape v elements
  | list : v.get "kind" = .text "list" → Shape v [v.get "element"]
  | function {params : List Value} :
      v.get "kind" = .text "fun" → v.get "params" = .list params →
      Shape v (params ++ [v.get "result"])

/-- The value is a type: it has one of the forms, and its parts are types. -/
inductive IsType : Value → Prop
  | shape {v : Value} {parts : List Value} :
      Shape v parts → (∀ p ∈ parts, IsType p) → IsType v

/-- The value is a variable of this name. -/
structure IsVariable (n : String) (v : Value) : Prop where
  kind : v.get "kind" = .text "var"
  name : v.get "name" = .text n

/-- A variable of this name is somewhere in a type. -/
inductive Occurs (n : String) : Value → Prop
  | here {v : Value} : IsVariable n v → Occurs n v
  | part {v p : Value} {parts : List Value} :
      Shape v parts → p ∈ parts → Occurs n p → Occurs n v

/-- The leftmost variable of a type whose name has the property is of this name. -/
inductive Leftmost (P : String → Prop) (n : String) : Value → Prop
  | here {v : Value} : IsVariable n v → P n → Leftmost P n v
  | part {v p : Value} {before after : List Value} :
      Shape v (before ++ p :: after) → (∀ q ∈ before, ∀ m, Occurs m q → ¬P m) →
      Leftmost P n p → Leftmost P n v

variable {v : Value} {parts : List Value}

/-! ## What is read of a form -/

theorem isLiteral_iff : v.isLiteral = true ↔ IsLiteral v := by
  constructor
  · intro h
    cases v with
    | null => exact .null
    | text s => exact .text s
    | number x => exact .number x
    | bool b => exact .bool b
    | _ => cases h
  · rintro ⟨⟩ <;> rfl

/-- The name of a variable. -/
def ownNames (v : Value) : List String :=
  match v.get "kind", v.get "name" with
  | .text "var", .text n => [n]
  | _, _ => []

/-- The names of the variables of a type, in the order they are read. -/
def names (v : Value) : List String := ((ofValue? v).map varNames).getD []

theorem ownNames_of_kind {k : String} (hkind : v.get "kind" = .text k) (hk : k ≠ "var") :
    ownNames v = [] := by
  unfold ownNames
  split
  · next h _ => exact absurd (Value.text.inj (hkind.symm.trans h)) hk
  · rfl

theorem mem_ownNames_iff {n : String} : n ∈ ownNames v ↔ IsVariable n v := by
  unfold ownNames
  constructor
  · intro h
    split at h
    · next hkind hname =>
      cases List.mem_singleton.mp h
      exact ⟨hkind, hname⟩
    · cases h
  · rintro ⟨hkind, hname⟩
    rw [hkind, hname]
    exact List.mem_singleton_self n

/-- Only a type without parts has a name of its own. -/
theorem Shape.ownNames_eq_nil_or (h : Shape v parts) : ownNames v = [] ∨ parts = [] := by
  cases h with
  | typeVar => exact Or.inr rfl
  | named hkind | remote hkind | literal hkind | union hkind | tuple hkind | list hkind
  | function hkind => exact Or.inl (ownNames_of_kind hkind (by decide))

theorem fieldOf?_eq (fs : List (String × Value)) (name : String) :
    fieldOf? fs name = ofValue? ((Value.fields fs).get name) := by
  rw [fieldOf?]
  split
  · next h => rw [h]
  · next h => rw [ofValue?.eq_2 _ h]

theorem listOf?_eq {fs : List (String × Value)} {name : String} {items : List Value}
    (h : (Value.fields fs).get name = .list items) : listOf? fs name = itemsOf? items := by
  rw [listOf?]
  split
  · next h' =>
    cases h.symm.trans h'
    rfl
  · next hnot => exact absurd h (hnot items)

theorem map_argsOf? {fs : List (String × Value)} {args : List Value}
    (h : Arguments ((Value.fields fs).get "args") args) :
    (argsOf? fs).map optionVarNames = (itemsOf? args).map listVarNames := by
  rw [argsOf?]
  generalize (Value.fields fs).get "args" = field at h
  cases h with
  | absent => rw [itemsOf?]; rfl
  | given _ => simp only [Option.map_map]; rfl

theorem listVarNames_append (ts us : List TypeExpr) :
    listVarNames (ts ++ us) = listVarNames ts ++ listVarNames us := by
  induction ts with
  | nil => rfl
  | cons t rest ih => rw [List.cons_append, listVarNames, ih, listVarNames, List.append_assoc]

theorem itemsOf?_append_singleton (vs : List Value) (v : Value) :
    itemsOf? (vs ++ [v])
      = (itemsOf? vs).bind fun ts => (ofValue? v).map fun t => ts ++ [t] := by
  induction vs with
  | nil =>
    rw [List.nil_append, itemsOf?, itemsOf?, itemsOf?]
    cases ofValue? v <;> rfl
  | cons w rest ih =>
    rw [List.cons_append, itemsOf?, itemsOf?, ih]
    cases ofValue? w <;> cases itemsOf? rest <;> cases ofValue? v <;> rfl

/-- **One form.**  A value of the form is read if its parts are, and the variables are its own
and those of the parts in turn. -/
theorem map_ofValue?_of_shape (h : Shape v parts) :
    (ofValue? v).map varNames
      = (itemsOf? parts).map fun ts => ownNames v ++ listVarNames ts := by
  have hfields {k : String} (hkind : v.get "kind" = .text k) : ∃ fs, v = .fields fs :=
    Value.exists_fields_of_get hkind
  cases h with
  | named hkind hname hargs =>
    rw [ownNames_of_kind hkind (by decide)]
    obtain ⟨fs, rfl⟩ := hfields hkind
    rw [ofValue?, hkind, hname]
    exact (Option.map_map ..).trans (map_argsOf? hargs)
  | remote hkind hmodule hname hargs =>
    rw [ownNames_of_kind hkind (by decide)]
    obtain ⟨fs, rfl⟩ := hfields hkind
    rw [ofValue?, hkind, hname]
    simp only [hmodule]
    exact (Option.map_map ..).trans (map_argsOf? hargs)
  | typeVar hkind hname =>
    rw [ownNames, hkind, hname]
    obtain ⟨fs, rfl⟩ := hfields hkind
    rw [ofValue?, hkind, hname, itemsOf?]
    rfl
  | literal hkind hvalue =>
    rw [ownNames_of_kind hkind (by decide)]
    obtain ⟨fs, rfl⟩ := hfields hkind
    rw [ofValue?, hkind, itemsOf?]
    simp only [isLiteral_iff.mpr hvalue, if_true]
    rfl
  | union hkind hmembers =>
    rw [ownNames_of_kind hkind (by decide)]
    obtain ⟨fs, rfl⟩ := hfields hkind
    rw [ofValue?, hkind]
    simp only [listOf?_eq hmembers, Option.map_map]
    rfl
  | tuple hkind helements =>
    rw [ownNames_of_kind hkind (by decide)]
    obtain ⟨fs, rfl⟩ := hfields hkind
    rw [ofValue?, hkind]
    simp only [listOf?_eq helements, Option.map_map]
    rfl
  | list hkind =>
    rw [ownNames_of_kind hkind (by decide)]
    obtain ⟨fs, rfl⟩ := hfields hkind
    rw [ofValue?, hkind, itemsOf?, itemsOf?]
    simp only [fieldOf?_eq]
    cases ofValue? ((Value.fields fs).get "element") with
    | none => rfl
    | some t => simp [varNames, listVarNames]
  | function hkind hparams =>
    rw [ownNames_of_kind hkind (by decide)]
    obtain ⟨fs, rfl⟩ := hfields hkind
    rw [ofValue?, hkind, itemsOf?_append_singleton]
    simp only [listOf?_eq hparams, fieldOf?_eq]
    cases itemsOf? _ with
    | none => rfl
    | some ts =>
      cases ofValue? ((Value.fields fs).get "result") with
      | none => rfl
      | some t => simp [varNames, listVarNames_append, listVarNames]

theorem exists_fields_of_ofValue? {t : TypeExpr} (h : ofValue? v = some t) :
    ∃ fs, v = .fields fs := by
  by_cases hv : ∃ fs, v = .fields fs
  · exact hv
  · rw [ofValue?.eq_2 v fun fs hfs => hv ⟨fs, hfs⟩] at h
    cases h

/-- What is read has one of the forms. -/
theorem exists_shape (h : isWritten v = true) : ∃ parts, Shape v parts := by
  obtain ⟨t, ht⟩ := Option.isSome_iff_exists.mp h
  obtain ⟨fs, rfl⟩ := exists_fields_of_ofValue? ht
  have hlist {name : String} {ts : List TypeExpr} (h : listOf? fs name = some ts) :
      ∃ items, (Value.fields fs).get name = .list items := by
    rw [listOf?] at h
    split at h
    · next items hitems => exact ⟨items, hitems⟩
    · cases h
  have hargs {args : Option (List TypeExpr)} (h : argsOf? fs = some args) :
      ∃ items, Arguments ((Value.fields fs).get "args") items := by
    rw [argsOf?] at h
    split at h
    · next habsent =>
      rw [habsent]
      exact ⟨[], .absent⟩
    · next items hitems =>
      rw [hitems]
      exact ⟨items, .given items⟩
    · cases h
  rw [ofValue?] at ht
  split at ht
  · next hkind hname =>
    obtain ⟨args, hread, -⟩ := Option.map_eq_some_iff.mp ht
    obtain ⟨items, hitems⟩ := hargs hread
    exact ⟨items, .named hkind hname hitems⟩
  · next hkind hname =>
    split at ht
    · next hmodule =>
      obtain ⟨args, hread, -⟩ := Option.map_eq_some_iff.mp ht
      obtain ⟨items, hitems⟩ := hargs hread
      exact ⟨items, .remote hkind hmodule hname hitems⟩
    · cases ht
  · next hkind hname => exact ⟨[], .typeVar hkind hname⟩
  · next hkind =>
    simp only [Option.ite_none_right_eq_some] at ht
    exact ⟨[], .literal hkind (isLiteral_iff.mp ht.1)⟩
  · next hkind =>
    obtain ⟨ts, hread, -⟩ := Option.map_eq_some_iff.mp ht
    obtain ⟨items, hitems⟩ := hlist hread
    exact ⟨items, .union hkind hitems⟩
  · next hkind =>
    obtain ⟨ts, hread, -⟩ := Option.map_eq_some_iff.mp ht
    obtain ⟨items, hitems⟩ := hlist hread
    exact ⟨items, .tuple hkind hitems⟩
  · next hkind => exact ⟨_, .list hkind⟩
  · next hkind =>
    obtain ⟨ts, hread, -⟩ := Option.bind_eq_some_iff.mp ht
    obtain ⟨items, hitems⟩ := hlist hread
    exact ⟨_, .function hkind hitems⟩
  · cases ht

/-! ## What is read of a type -/

theorem isSome_itemsOf? (vs : List Value) : (itemsOf? vs).isSome = vs.all isWritten := by
  induction vs with
  | nil => rw [itemsOf?]; rfl
  | cons v rest ih =>
    rw [itemsOf?, List.all_cons, ← ih, isWritten]
    cases ofValue? v <;> cases itemsOf? rest <;> rfl

theorem listVarNames_of_itemsOf? {vs : List Value} {ts : List TypeExpr}
    (h : itemsOf? vs = some ts) : listVarNames ts = vs.flatMap names := by
  induction vs generalizing ts with
  | nil =>
    rw [itemsOf?] at h
    cases h
    rfl
  | cons v rest ih =>
    rw [itemsOf?] at h
    obtain ⟨t, ht, h⟩ := Option.bind_eq_some_iff.mp h
    obtain ⟨ts', hts, h⟩ := Option.bind_eq_some_iff.mp h
    cases h
    have hnames : names v = t.varNames := by rw [names, ht]; rfl
    rw [listVarNames, ih hts, List.flatMap_cons, hnames]

/-- A value of a form is read if its parts are. -/
theorem isWritten_of_shape (h : Shape v parts) : isWritten v = parts.all isWritten := by
  rw [← isSome_itemsOf?, isWritten, ← Option.isSome_map, map_ofValue?_of_shape h,
    Option.isSome_map]

/-- The variables of a value of a form are its own and those of its parts in turn. -/
theorem names_of_shape (h : Shape v parts) (hparts : parts.all isWritten = true) :
    names v = ownNames v ++ parts.flatMap names := by
  rw [← isSome_itemsOf?] at hparts
  obtain ⟨ts, hts⟩ := Option.isSome_iff_exists.mp hparts
  rw [names, map_ofValue?_of_shape h, hts, Option.map_some, Option.getD_some,
    listVarNames_of_itemsOf? hts]

theorem Shape.sizeOf_lt (h : Shape v parts) {p : Value} (hp : p ∈ parts) :
    p = .undefined ∨ sizeOf p < sizeOf v := by
  have hlist {name : String} {items : List Value} (hget : v.get name = .list items)
      (hp : p ∈ items) : sizeOf p < sizeOf v := by
    rcases v.sizeOf_get_le name with hnone | hlt
    · cases hget.symm.trans hnone
    · rw [hget] at hlt
      have := List.sizeOf_lt_of_mem hp
      simp only [Value.list.sizeOf_spec] at hlt
      omega
  have hargs {args : List Value} (hargs : Arguments (v.get "args") args) (hp : p ∈ args) :
      sizeOf p < sizeOf v := by
    generalize hfield : v.get "args" = field at hargs
    cases hargs with
    | absent => cases hp
    | given => exact hlist hfield hp
  cases h with
  | named _ _ h => exact Or.inr (hargs h hp)
  | remote _ _ _ h => exact Or.inr (hargs h hp)
  | typeVar => cases hp
  | literal => cases hp
  | union _ h => exact Or.inr (hlist h hp)
  | tuple _ h => exact Or.inr (hlist h hp)
  | list =>
    cases List.mem_singleton.mp hp
    exact v.sizeOf_get_le "element"
  | function _ h =>
    rcases List.mem_append.mp hp with hp | hp
    · exact Or.inr (hlist h hp)
    · cases List.mem_singleton.mp hp
      exact v.sizeOf_get_le "result"

/-- **Exactly the types of the grammar are read.** -/
theorem isWritten_iff : isWritten v = true ↔ IsType v := by
  constructor
  · intro h
    induction hsize : sizeOf v using Nat.strongRecOn generalizing v with
    | _ size ih =>
      subst hsize
      obtain ⟨parts, hshape⟩ := exists_shape h
      refine .shape hshape fun p hp => ?_
      have hwritten : isWritten p = true := by
        rw [isWritten_of_shape hshape] at h
        exact List.all_eq_true.mp h p hp
      -- A part that the value lacks is undefined, and that is not read.
      rcases hshape.sizeOf_lt hp with rfl | hlt
      · obtain ⟨t, ht⟩ := Option.isSome_iff_exists.mp hwritten
        obtain ⟨fs, hfs⟩ := exists_fields_of_ofValue? ht
        cases hfs
      · exact ih _ hlt hwritten rfl
  · intro h
    induction h with
    | shape hshape _ ih =>
      rw [isWritten_of_shape hshape]
      exact List.all_eq_true.mpr ih

theorem IsType.names_eq (h : IsType v) (hshape : Shape v parts) :
    names v = ownNames v ++ parts.flatMap names := by
  have hwritten := isWritten_iff.mpr h
  rw [isWritten_of_shape hshape] at hwritten
  exact names_of_shape hshape hwritten

theorem IsType.part (h : IsType v) (hshape : Shape v parts) {p : Value} (hp : p ∈ parts) :
    IsType p := by
  have hwritten := isWritten_iff.mpr h
  rw [isWritten_of_shape hshape] at hwritten
  exact isWritten_iff.mp (List.all_eq_true.mp hwritten p hp)

theorem names_of_isVariable {n : String} (h : IsVariable n v) : names v = [n] := by
  have hshape : Shape v [] := .typeVar h.kind h.name
  rw [names_of_shape hshape rfl, List.flatMap_nil, List.append_nil, ownNames, h.kind, h.name]
  rfl

/-- **The variables that are read are those that occur.** -/
theorem IsType.mem_names_iff (h : IsType v) {n : String} : n ∈ names v ↔ Occurs n v := by
  constructor
  · induction h with
    | shape hshape hparts ih =>
      rw [IsType.names_eq (.shape hshape hparts) hshape, List.mem_append, List.mem_flatMap]
      rintro (hown | ⟨p, hp, hn⟩)
      · exact .here (mem_ownNames_iff.mp hown)
      · exact .part hshape hp (ih p hp hn)
  · intro hoccurs
    induction hoccurs with
    | here hvariable =>
      rw [names_of_isVariable hvariable]
      exact List.mem_singleton_self n
    | part hshape hp _ ih =>
      rw [h.names_eq hshape]
      exact List.mem_append_right _ (List.mem_flatMap.mpr ⟨_, hp, ih (h.part hshape hp)⟩)

/-- **The first variable with a property that is read is the leftmost.** -/
theorem IsType.find?_names_iff (h : IsType v) {P : String → Prop} [DecidablePred P] {n : String} :
    (names v).find? (fun m => decide (P m)) = some n ↔ Leftmost P n v := by
  have hnone {q : Value} (hq : IsType q) :
      (names q).find? (fun m => decide (P m)) = none ↔ ∀ m, Occurs m q → ¬P m := by
    simp only [List.find?_eq_none, decide_eq_true_eq, hq.mem_names_iff]
  constructor
  · induction h with
    | @shape v parts hshape hparts ih =>
      rw [IsType.names_eq (.shape hshape hparts) hshape]
      -- Either the value is a variable or all its variables are in its parts.
      rcases hshape.ownNames_eq_nil_or with hown | rfl
      · rw [hown, List.nil_append, List.find?_flatMap, List.findSome?_eq_some_iff]
        rintro ⟨before, p, after, rfl, hfound, hbefore⟩
        have hp : p ∈ before ++ p :: after := List.mem_append_right _ List.mem_cons_self
        refine .part hshape (fun q hq => ?_) (ih p hp hfound)
        exact (hnone (hparts q (List.mem_append_left _ hq))).mp (hbefore q hq)
      · rw [List.flatMap_nil, List.append_nil]
        intro hfound
        exact .here (mem_ownNames_iff.mp (List.mem_of_find?_eq_some hfound))
          (of_decide_eq_true (List.find?_some hfound :))
  · intro hleftmost
    induction hleftmost with
    | here hvariable hP =>
      rw [names_of_isVariable hvariable]
      simp [hP]
    | @part v p before after hshape hbefore _ ih =>
      have hp : p ∈ before ++ p :: after := List.mem_append_right _ List.mem_cons_self
      have hown : ownNames v = [] :=
        hshape.ownNames_eq_nil_or.resolve_right fun hnil => by simp at hnil
      rw [h.names_eq hshape, hown, List.nil_append, List.find?_flatMap,
        List.findSome?_eq_some_iff]
      refine ⟨before, p, after, rfl, ih (h.part hshape hp), fun q hq => ?_⟩
      exact (hnone (h.part hshape (List.mem_append_left _ hq))).mpr (hbefore q hq)

/-- If a variable of a type has the property, one name is that of the leftmost. -/
theorem IsType.exists_leftmost (h : IsType v) {P : String → Prop} {n : String}
    (hoccurs : Occurs n v) (hP : P n) : ∃ l, ∀ m, Leftmost P m v ↔ m = l := by
  classical
  have hsome : ((names v).find? fun m => decide (P m)).isSome :=
    List.find?_isSome.mpr ⟨n, h.mem_names_iff.mpr hoccurs, decide_eq_true hP⟩
  obtain ⟨l, hl⟩ := Option.isSome_iff_exists.mp hsome
  refine ⟨l, fun m => ?_⟩
  rw [← h.find?_names_iff, hl, Option.some.injEq, eq_comm]

end TypeExpr
end ModuleBuild
