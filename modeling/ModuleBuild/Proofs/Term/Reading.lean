import ModuleBuild.Definition.NameArity
import ModuleBuild.Proofs.Term.Normal

/-! # Readings piece by piece

What a list is read back as consists of the readings of its items, and what a record is
read back as has the readings of its fields (`get_reading_record`).
-/
namespace ModuleBuild

theorem Value.get_record (es : List (String × Value)) (name : String) :
    (record es).get name = (findField name es.reverse).getD undefined := by
  rw [record, get, findField_fieldsOf]

namespace Term

open Value

@[simp] theorem reading_text (s : String) : reading (.text s) = .text s := rfl

theorem reading_number (x : Number) : reading (.number x) = .number x.unsignedZero := rfl

@[simp] theorem reading_int (i : Int) : reading (.int i) = .int i := by
  change Value.number (Number.ofInt i).unsignedZero = .number (Number.ofInt i)
  rw [Number.unsignedZero_ofInt]

theorem reading_list (vs : List Value) : reading (.list vs) = .list (vs.map reading) := by
  rw [reading, ordered, norm, orderedItems_eq, normItems_eq, List.map_map]
  rfl

/-- Ordering a record orders the values of its fields. -/
theorem ordered_record (es : List (String × Value)) :
    ordered (.record es) = .fields ((fieldsOf es).map fun e => (e.1, ordered e.2)) := by
  have horder : fieldsOf (fieldsOf es) = fieldsOf es := fieldsOf_eq_self (pairwise_fieldsOf es)
  rw [record, ordered, orderedFields_eq, record, fieldsOf_map, horder]

@[simp] theorem isRecord_reading_record (es : List (String × Value)) :
    (reading (.record es)).isRecord = true := by
  rw [reading, ordered_record, norm]
  split <;> rfl

/-- The value of a field does not show whether undefined fields are left out. -/
theorem getD_filter_isDefined (x : Option Value) :
    (x.filter isDefined).getD .undefined = x.getD .undefined := by
  cases x with
  | none => rfl
  | some v => cases v <;> rfl

theorem get_norm_fields {fs : List (String × Value)} (h : fs.Pairwise MayPrecede)
    (name : String) : (norm (.fields fs)).get name = norm ((Value.fields fs).get name) := by
  have hget : ((findField name fs).map norm).getD .undefined
      = norm ((Value.fields fs).get name) := by
    rw [Value.get]
    cases findField name fs <;> rfl
  have hnorm : (normFields fs).Pairwise MayPrecede :=
    pairwise_of_names (by rw [normFields_eq, List.map_map]; rfl) h
  rw [← hget, norm]
  split
  · rw [Value.get, normFields_eq, findField_map]
  · rw [Value.get, findField_filter hnorm, getD_filter_isDefined, normFields_eq, findField_map]

/-- **A field of a record is read back** as the value last written to it. -/
theorem get_reading_record (es : List (String × Value)) (name : String) :
    (reading (.record es)).get name = reading ((Value.record es).get name) := by
  have hpairwise : ((fieldsOf es).map fun e => (e.1, ordered e.2)).Pairwise MayPrecede :=
    pairwise_of_names (by rw [List.map_map]; rfl) (pairwise_fieldsOf es)
  rw [reading, ordered_record, get_norm_fields hpairwise, reading, Value.get, Value.record,
    Value.get, findField_map]
  cases findField name (fieldsOf es) <;> rfl

/-- A record whose values are read back as something is read back field by field. -/
theorem reading_record {es : List (String × Value)} (h : ∀ e ∈ es, (reading e.2).isDefined = true) :
    reading (.record es) = .record (es.map fun e => (e.1, reading e.2)) := by
  have hfields : normFields ((fieldsOf es).map fun e => (e.1, ordered e.2))
      = (fieldsOf es).map fun e => (e.1, reading e.2) := by
    rw [normFields_eq, List.map_map]
    rfl
  have hdefined : ∀ e ∈ (fieldsOf es).map fun e => (e.1, reading e.2), e.2.isDefined = true :=
    List.forall_mem_map.mpr fun e he => h e (mem_of_mem_fieldsOf he)
  -- nothing is left out, whether or not the record has a tag field
  rw [reading, ordered_record, norm, hfields, List.filter_eq_self.mpr hdefined, ite_self, record,
    fieldsOf_map]

/-- A pair is read back as it is. -/
@[simp] theorem reading_toValue (p : NameArity) : reading p.toValue = p.toValue := by
  have hdefined : ∀ e ∈ [("name", Value.text p.name), ("arity", .int p.arity)],
      (reading e.2).isDefined = true := by
    simp only [List.forall_mem_cons, reading_text, reading_int]
    exact ⟨rfl, rfl, nofun⟩
  rw [NameArity.toValue, reading_record hdefined]
  simp only [List.map_cons, List.map_nil, reading_text, reading_int]

end Term
end ModuleBuild
