import ModuleBuild.Proofs.Json.Numeral
import ModuleBuild.Proofs.Value.Fields
import ModuleBuild.Term

/-! # Plain values and their normal forms

A plain value is one that payloads can hold.  Its normal form has no signed zero, and no
undefined fields except in records with a field `$term` (`norm`); it is plain again and
its own normal form.
-/
namespace ModuleBuild
namespace Term

open Value

mutual

/-- The normal form of a value. -/
def norm : Value → Value
  | .number x => .number x.unsignedZero
  | .list vs => .list (normItems vs)
  | .fields fs =>
    if (findField tagName fs).isSome then .fields (normFields fs)
    else .fields ((normFields fs).filter fun f => f.2.isDefined)
  | v => v

/-- The normal forms of items. -/
def normItems : List Value → List Value
  | [] => []
  | v :: rest => norm v :: normItems rest

/-- Fields with their values in normal form. -/
def normFields : List (String × Value) → List (String × Value)
  | [] => []
  | (n, v) :: rest => (n, norm v) :: normFields rest

end

mutual

/-- A value with the fields of all its records in field order. -/
def ordered : Value → Value
  | .list vs => .list (orderedItems vs)
  | .fields fs => .record (orderedFields fs)
  | v => v

/-- Items with the fields of all their records in field order. -/
def orderedItems : List Value → List Value
  | [] => []
  | v :: rest => ordered v :: orderedItems rest

/-- Fields whose values have the fields of all their records in field order. -/
def orderedFields : List (String × Value) → List (String × Value)
  | [] => []
  | (n, v) :: rest => (n, ordered v) :: orderedFields rest

end

/-- What a value that has been written is read back as. -/
def reading (v : Value) : Value := norm (ordered v)

/-- Values that artifacts can hold: nothing in them exists only at compile time, and
the fields of records are in field order, each name once. -/
inductive IsPlain : Value → Prop where
  | undefined : IsPlain .undefined
  | null : IsPlain .null
  | bool (b : Bool) : IsPlain (.bool b)
  | number (x : Number) : IsPlain (.number x)
  | bigint (i : Int) : IsPlain (.bigint i)
  | text (s : String) : IsPlain (.text s)
  | list {vs : List Value} (items : ∀ v ∈ vs, IsPlain v) : IsPlain (.list vs)
  | fields {fs : List (String × Value)} (order : fieldsOf fs = fs)
      (values : ∀ f ∈ fs, IsPlain f.2) : IsPlain (.fields fs)

theorem normItems_eq (vs : List Value) : normItems vs = vs.map norm := by
  induction vs with
  | nil => rfl
  | cons v rest ih => rw [normItems, ih, List.map_cons]

theorem normFields_eq (fs : List (String × Value)) :
    normFields fs = fs.map fun f => (f.1, norm f.2) := by
  induction fs with
  | nil => rfl
  | cons f rest ih => rw [normFields, ih, List.map_cons]

theorem orderedItems_eq (vs : List Value) : orderedItems vs = vs.map ordered := by
  induction vs with
  | nil => rfl
  | cons v rest ih => rw [orderedItems, ih, List.map_cons]

theorem orderedFields_eq (fs : List (String × Value)) :
    orderedFields fs = fs.map fun f => (f.1, ordered f.2) := by
  induction fs with
  | nil => rfl
  | cons f rest ih => rw [orderedFields, ih, List.map_cons]

/-- A plain value is in field order. -/
theorem ordered_of_isPlain {v : Value} (h : IsPlain v) : ordered v = v := by
  induction h with
  | undefined | null | bool | number | bigint | text => rfl
  | @list vs _ ih => rw [ordered, orderedItems_eq, List.map_congr_left ih, List.map_id']
  | @fields fs order _ ih =>
    have hvalues : (fs.map fun f => (f.1, ordered f.2)) = fs := by
      have hcongr : ∀ f ∈ fs, (f.1, ordered f.2) = f := fun f hf => by rw [ih f hf]
      rw [List.map_congr_left hcongr, List.map_id']
    rw [ordered, orderedFields_eq, hvalues, record, order]

/-! ## Normal forms of plain values -/

theorem mem_normFields {fs : List (String × Value)} {f : String × Value}
    (h : f ∈ normFields fs) : ∃ g ∈ fs, f = (g.1, norm g.2) := by
  rw [normFields_eq] at h
  obtain ⟨g, hg, rfl⟩ := List.mem_map.mp h
  exact ⟨g, hg, rfl⟩

/-- The normal form of a plain value is plain. -/
theorem isPlain_norm {v : Value} (h : IsPlain v) : IsPlain (norm v) := by
  induction h with
  | undefined => exact .undefined
  | null => exact .null
  | bool b => exact .bool b
  | number x => exact .number _
  | bigint i => exact .bigint i
  | text s => exact .text s
  | list _ ih =>
    rw [norm, normItems_eq]
    exact .list (List.forall_mem_map.mpr ih)
  | @fields fs order _ ih =>
    have horder : fieldsOf (normFields fs) = normFields fs := by
      rw [normFields_eq, fieldsOf_map, order]
    have hvalues : ∀ f ∈ normFields fs, IsPlain f.2 := by
      intro f hf
      obtain ⟨g, hg, rfl⟩ := mem_normFields hf
      exact ih g hg
    rw [norm]
    split
    · exact .fields horder hvalues
    · exact .fields (fieldsOf_eq_self ((fieldsOf_eq_self_iff.mp horder).filter _))
        fun f hf => hvalues f (List.mem_of_mem_filter hf)

theorem normFields_eq_self {fs : List (String × Value)} (h : ∀ f ∈ fs, norm f.2 = f.2) :
    normFields fs = fs := by
  have hcongr : ∀ f ∈ fs, (f.1, norm f.2) = f := fun f hf => by rw [h f hf]
  rw [normFields_eq, List.map_congr_left hcongr, List.map_id']

/-- A normal form is its own normal form. -/
theorem norm_norm {v : Value} (h : IsPlain v) : norm (norm v) = norm v := by
  induction h with
  | undefined | null | bool | bigint | text => rfl
  | number x => simp [norm]
  | list _ ih =>
    rw [norm, norm, normItems_eq, normItems_eq, List.map_map]
    exact congrArg Value.list (List.map_congr_left ih)
  | @fields fs _ _ ih =>
    have hvalues : ∀ f ∈ normFields fs, norm f.2 = f.2 := by
      intro f hf
      obtain ⟨g, hg, rfl⟩ := mem_normFields hf
      exact ih g hg
    have htag : (findField tagName (normFields fs)).isSome = (findField tagName fs).isSome := by
      rw [normFields_eq, isSome_findField_map]
    rw [norm]
    by_cases hfs : (findField tagName fs).isSome = true
    · rw [if_pos hfs, norm, if_pos (htag.trans hfs), normFields_eq_self hvalues]
    · have hnone := findField_filter_eq_none (fun f => f.2.isDefined)
        (Option.not_isSome_iff_eq_none.mp (htag ▸ hfs))
      rw [if_neg hfs, norm, hnone]
      rw [normFields_eq_self fun f hf => hvalues f (List.mem_of_mem_filter hf), List.filter_filter]
      simp

end Term
end ModuleBuild
