import ModuleBuild.Value.Basic

/-! # The size of fields

What a field of a record holds is smaller than the record, so readers of values may
call themselves on it.
-/
namespace ModuleBuild
namespace Value

theorem sizeOf_findField {name : String} {fs : List (String × Value)} {v : Value}
    (h : findField name fs = some v) : sizeOf v < sizeOf (fields fs) := by
  induction fs with
  | nil => simp [findField] at h
  | cons e rest ih =>
    obtain ⟨n, w⟩ := e
    simp only [findField] at h
    split at h
    · cases h
      simp
      omega
    · have := ih h
      simp at this ⊢
      omega

theorem sizeOf_get_lt (fs : List (String × Value)) (name : String) :
    sizeOf ((fields fs).get name) < sizeOf (fields fs) ∨ (fields fs).get name = undefined := by
  cases h : findField name fs with
  | none => right; simp [get, h]
  | some v => left; simpa [get, h] using sizeOf_findField h

theorem sizeOf_list_of_get {fs : List (String × Value)} {name : String} {items : List Value}
    (h : (fields fs).get name = list items) : sizeOf items < sizeOf (fields fs) := by
  rcases sizeOf_get_lt fs name with hlt | hu
  · rw [h] at hlt
    simp at hlt ⊢
    omega
  · rw [h] at hu
    cases hu

theorem sizeOf_record_of_get {fs fs' : List (String × Value)} {name : String}
    (h : (fields fs).get name = fields fs') : sizeOf (fields fs') < sizeOf (fields fs) := by
  rcases sizeOf_get_lt fs name with hlt | hu
  · rwa [h] at hlt
  · rw [h] at hu
    cases hu

end Value
end ModuleBuild
