import ModuleBuild.Definition.NameArity
import ModuleBuild.OrderedMap
import ModuleBuild.Proofs.Number.Numeral

/-! # Pairs and their written keys

A pair is written as its name, a slash and its arity.  A name may hold slashes, but the
arity does not, so the last slash separates the two and the written key determines the pair
(`NameArity.key_injective`).  A table may therefore be kept by pairs or by written keys.
-/
namespace ModuleBuild

/-- A list is determined by what precedes and what follows the last occurrence of a
separator. -/
theorem append_cons_inj_of_last {α : Type} {x : α} {l l' r r' : List α} (hr : x ∉ r)
    (hr' : x ∉ r') (h : l ++ x :: r = l' ++ x :: r') : l = l' ∧ r = r' := by
  rcases List.append_eq_append_iff.mp h with ⟨m, rfl, hm⟩ | ⟨m, rfl, hm⟩
  · cases m with
    | nil => exact ⟨(List.append_nil l).symm, (List.cons.inj hm).2⟩
    | cons y m =>
      obtain ⟨rfl, rfl⟩ := List.cons.inj hm
      exact absurd (by simp) hr
  · cases m with
    | nil => exact ⟨List.append_nil l', (List.cons.inj hm).2.symm⟩
    | cons y m =>
      obtain ⟨rfl, rfl⟩ := List.cons.inj hm
      exact absurd (by simp) hr'

namespace NameArity

theorem toString_injective {i j : Int} (h : toString i = toString j) : i = j := by
  have hread := congrArg Numeral.integer? h
  rw [Numeral.integer?_toString, Numeral.integer?_toString] at hread
  exact Option.some.inj hread

theorem slash_not_mem_toString (i : Int) : '/' ∉ (toString i).toList := by
  rw [Numeral.toList_toString, List.mem_append, not_or]
  constructor
  · split <;> decide
  · intro hmem
    exact absurd (isDigit_toDigits hmem) (by decide)

/-- **The written key determines the pair**, whatever slashes the name holds. -/
theorem key_injective {p q : NameArity} (h : p.key = q.key) : p = q := by
  have hchars := congrArg String.toList h
  simp only [key, String.toList_append, List.append_assoc] at hchars
  obtain ⟨hname, harity⟩ := append_cons_inj_of_last (slash_not_mem_toString p.arity)
    (slash_not_mem_toString q.arity) hchars
  have hn : p.name = q.name := String.toList_injective hname
  have ha : p.arity = q.arity := toString_injective (String.toList_injective harity)
  cases p
  cases q
  cases hn
  cases ha
  rfl

end NameArity
end ModuleBuild
