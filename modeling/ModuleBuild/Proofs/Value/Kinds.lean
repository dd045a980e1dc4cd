import ModuleBuild.Value.Basic

/-! # Kinds of values

What a value is, when it is looked at as one of a kind.
-/
namespace ModuleBuild
namespace Value

variable {v : Value}

theorem asBool?_eq_some_iff {b : Bool} : v.asBool? = some b ↔ v = .bool b := by
  cases v <;> simp [asBool?]

theorem asText?_eq_some_iff {s : String} : v.asText? = some s ↔ v = .text s := by
  cases v <;> simp [asText?]

theorem asNumber?_eq_some_iff {x : Number} : v.asNumber? = some x ↔ v = .number x := by
  cases v <;> simp [asNumber?]

theorem asList?_eq_some_iff {items : List Value} : v.asList? = some items ↔ v = .list items := by
  cases v <;> simp [asList?]

theorem asList?_eq_none_iff : v.asList? = none ↔ ∀ items, v ≠ .list items := by
  cases v <;> simp [asList?]

end Value
end ModuleBuild
