import Mathlib.Data.List.Basic
import ModuleBuild.Artifact.Backend
import ModuleBuild.Proofs.Value.Kinds

/-! # Flags of nested values

The flags of several values are those of each value in turn (`flagsOfAll_eq_flatMap`), and those of
a list are those of its items.  So it does not matter how consecutive values are put into lists
(`Value.Renested.flagsOfAll_eq`).  Every flag comes from a value that is no list and stands at some
depth (`mem_flagsOfAll_iff`).  A flag stands for itself (`IsFlag.flagsOf_eq`), so flattening flags
leaves them as they are.
-/
namespace ModuleBuild

/-! ## Values at any depth -/

namespace Value

/-- A value stands among others, or in a list that stands among them at some depth. -/
inductive OccursIn (v : Value) : List Value → Prop where
  | among {vs : List Value} : v ∈ vs → OccursIn v vs
  | within {vs items : List Value} : list items ∈ vs → OccursIn v items → OccursIn v vs

/-- Values that differ only in how consecutive ones are put into lists, at whatever depth. -/
inductive Renested : List Value → List Value → Prop where
  | gather (before items after : List Value) :
      Renested (before ++ items ++ after) (before ++ list items :: after)
  | within (before after : List Value) {items items' : List Value} : Renested items items' →
      Renested (before ++ list items :: after) (before ++ list items' :: after)
  | refl (vs : List Value) : Renested vs vs
  | symm {vs ws : List Value} : Renested vs ws → Renested ws vs
  | trans {us vs ws : List Value} : Renested us vs → Renested vs ws → Renested us ws

/-- A name is asked for: as a text at some depth, or set to true in a record at some depth. -/
def Asks (name : String) (vs : List Value) : Prop :=
  (text name).OccursIn vs ∨ ∃ fs, (fields fs).OccursIn vs ∧ (name, bool true) ∈ fs

end Value

open Value

/-! ## The flags of several values -/

theorem flagsOfAll_eq_flatMap (vs : List Value) : flagsOfAll vs = vs.flatMap flagsOf := by
  induction vs with
  | nil => rfl
  | cons v vs ih => rw [flagsOfAll, ih, List.flatMap_cons]

@[simp] theorem flagsOfAll_append (vs ws : List Value) :
    flagsOfAll (vs ++ ws) = flagsOfAll vs ++ flagsOfAll ws := by
  simp only [flagsOfAll_eq_flatMap, List.flatMap_append]

/-- A list has the flags of its items. -/
theorem flagsOfAll_list_cons (items after : List Value) :
    flagsOfAll (.list items :: after) = flagsOfAll items ++ flagsOfAll after := by
  rw [flagsOfAll, flagsOf]

theorem Value.Renested.flagsOfAll_eq {vs ws : List Value} (h : Renested vs ws) :
    flagsOfAll vs = flagsOfAll ws := by
  induction h with
  | gather before items after => simp [flagsOfAll_list_cons]
  | within before after _ ih => simp [flagsOfAll_list_cons, ih]
  | refl => rfl
  | symm _ ih => exact ih.symm
  | trans _ _ ih₁ ih₂ => exact ih₁.trans ih₂

theorem occurs_of_mem_flagsOfAll {f : Value} (vs : List Value) (h : f ∈ flagsOfAll vs) :
    ∃ v, v.OccursIn vs ∧ v.asList? = none ∧ f ∈ flagsOf v := by
  rw [flagsOfAll_eq_flatMap] at h
  obtain ⟨v, hv, hf⟩ := List.mem_flatMap.mp h
  cases hlist : v.asList? with
  | none => exact ⟨v, .among hv, hlist, hf⟩
  | some items =>
    -- A list's flags come from its items, which are smaller.
    obtain rfl := Value.asList?_eq_some_iff.mp hlist
    obtain ⟨w, hw, hplain, hf⟩ := occurs_of_mem_flagsOfAll items hf
    exact ⟨w, .within hv hw, hplain, hf⟩
termination_by sizeOf vs
decreasing_by
  have hlt := List.sizeOf_lt_of_mem hv
  rw [Value.list.sizeOf_spec] at hlt
  omega

/-- The flags of values are those of the values at any depth that are no lists. -/
theorem mem_flagsOfAll_iff {f : Value} {vs : List Value} :
    f ∈ flagsOfAll vs ↔ ∃ v, v.OccursIn vs ∧ v.asList? = none ∧ f ∈ flagsOf v := by
  refine ⟨occurs_of_mem_flagsOfAll vs, ?_⟩
  rintro ⟨v, hoccurs, -, hf⟩
  induction hoccurs with
  | among hv =>
    rw [flagsOfAll_eq_flatMap]
    exact List.mem_flatMap.mpr ⟨v, hv, hf⟩
  | within hitems _ ih =>
    rw [flagsOfAll_eq_flatMap]
    exact List.mem_flatMap.mpr ⟨_, hitems, ih⟩

/-! ## What a flag is -/

/-- A value that is neither a list nor a record, or a name with a value other than true. -/
inductive IsFlag : Value → Prop where
  | plain {v : Value} : v.asList? = none → v.isRecord = false → IsFlag v
  | setting (name : String) {v : Value} : v ≠ .bool true → IsFlag (.fields [(name, v)])

theorem fieldFlag_of_ne {name : String} {v : Value} (h : v ≠ .bool true) :
    fieldFlag (name, v) = .fields [(name, v)] := by
  rw [fieldFlag]
  intro hv
  exact h hv

theorem isFlag_fieldFlag (e : String × Value) : IsFlag (fieldFlag e) := by
  obtain ⟨name, v⟩ := e
  by_cases hv : v = .bool true
  · subst hv
    exact .plain rfl rfl
  · rw [fieldFlag_of_ne hv]
    exact .setting name hv

theorem IsFlag.asList?_eq_none {f : Value} (h : IsFlag f) : f.asList? = none := by
  cases h with
  | plain hlist _ => exact hlist
  | setting => rfl

/-- A value that is neither a list nor a record is its own flag. -/
theorem flagsOf_of_plain {v : Value} (hlist : v.asList? = none) (hrecord : v.isRecord = false) :
    flagsOf v = [v] := by
  cases v with
  | list items => cases hlist
  | fields fs => cases hrecord
  | foreign kind =>
    cases kind with
    | object className => cases hrecord
    | function | symbol => rfl
  | undefined | null | bool | number | bigint | text => rfl

/-- What is no list gives itself, or a flag for each of its fields. -/
theorem mem_flagsOf_iff {f v : Value} (hlist : v.asList? = none) : f ∈ flagsOf v ↔
    v.isRecord = false ∧ f = v ∨ ∃ fs, v = .fields fs ∧ ∃ e ∈ fs, fieldFlag e = f := by
  cases hrecord : v.isRecord with
  | false =>
    rw [flagsOf_of_plain hlist hrecord, List.mem_singleton]
    refine ⟨fun h => Or.inl ⟨rfl, h⟩, ?_⟩
    rintro (⟨-, h⟩ | ⟨fs, rfl, -⟩)
    · exact h
    · cases hrecord
  | true =>
    cases v with
    | fields fs => simp [flagsOf]
    | foreign kind =>
      cases kind with
      | object className => simp [flagsOf]
      | function | symbol => cases hrecord
    | undefined | null | bool | number | bigint | text | list => cases hrecord

theorem IsFlag.flagsOf_eq {f : Value} (h : IsFlag f) : flagsOf f = [f] := by
  cases h with
  | plain hlist hrecord => exact flagsOf_of_plain hlist hrecord
  | setting name hv => rw [flagsOf, List.map_singleton, fieldFlag_of_ne hv]

theorem isFlag_of_mem_flagsOfAll {f : Value} {vs : List Value} (h : f ∈ flagsOfAll vs) :
    IsFlag f := by
  obtain ⟨v, -, hlist, hf⟩ := mem_flagsOfAll_iff.mp h
  rcases (mem_flagsOf_iff hlist).mp hf with ⟨hrecord, rfl⟩ | ⟨fs, -, e, -, rfl⟩
  · exact .plain hlist hrecord
  · exact isFlag_fieldFlag e

/-- Flags stand for themselves. -/
theorem flagsOfAll_flagsOfAll (vs : List Value) : flagsOfAll (flagsOfAll vs) = flagsOfAll vs := by
  rw [flagsOfAll_eq_flatMap (flagsOfAll vs)]
  calc (flagsOfAll vs).flatMap flagsOf
      = (flagsOfAll vs).flatMap fun f => [f] :=
        List.flatMap_congr fun f hf => (isFlag_of_mem_flagsOfAll hf).flagsOf_eq
    _ = flagsOfAll vs := List.flatMap_singleton' _

/-! ## Named flags -/

theorem fieldFlag_eq_text_iff {e : String × Value} {name : String} :
    fieldFlag e = .text name ↔ e = (name, .bool true) := by
  obtain ⟨n, v⟩ := e
  by_cases hv : v = .bool true
  · subst hv
    simp [fieldFlag]
  · simp [fieldFlag_of_ne hv, hv]

theorem text_mem_flagsOfAll_iff {name : String} {vs : List Value} :
    .text name ∈ flagsOfAll vs ↔ Asks name vs := by
  rw [mem_flagsOfAll_iff]
  constructor
  · rintro ⟨v, hoccurs, hlist, hf⟩
    rcases (mem_flagsOf_iff hlist).mp hf with ⟨-, rfl⟩ | ⟨fs, rfl, e, he, hflag⟩
    · exact Or.inl hoccurs
    · exact Or.inr ⟨fs, hoccurs, fieldFlag_eq_text_iff.mp hflag ▸ he⟩
  · rintro (hoccurs | ⟨fs, hoccurs, hmem⟩)
    · exact ⟨_, hoccurs, rfl, List.mem_singleton_self _⟩
    · exact ⟨_, hoccurs, rfl, List.mem_map.mpr ⟨_, hmem, rfl⟩⟩

theorem hasFlag_eq_true_iff {name : String} {flags : List Value} :
    hasFlag name flags = true ↔ .text name ∈ flags := by
  rw [hasFlag, List.any_eq_true]
  constructor
  · rintro ⟨f, hf, htext⟩
    cases f with
    | text n => exact of_decide_eq_true htext ▸ hf
    | undefined | null | bool | number | bigint | list | fields | foreign => cases htext
  · intro hf
    exact ⟨_, hf, decide_eq_true rfl⟩

namespace BackendOptions

/-- **Values are flattened as one list.**  The flags of values one after the other are the flags of
the first and then those of the others.  How consecutive values are put into lists makes no
difference, and flattening flags gives the same options.  No flag is a list.  The definitions are
kept in a chunk of their own, and the source path is left out, if and only if that is asked for: as
a text at some depth, or as a name set to true in a record at some depth. -/
theorem flattening_laws (vs ws : List Value) :
    (ofValues (vs ++ ws)).flags = (ofValues vs).flags ++ (ofValues ws).flags ∧
    (∀ us, Renested vs us → ofValues us = ofValues vs) ∧
    ofValues (ofValues vs).flags = ofValues vs ∧
    (∀ f ∈ (ofValues vs).flags, ∀ items, f ≠ .list items) ∧
    ((ofValues vs).debugInfo = true ↔ Asks "debug_info" vs) ∧
    ((ofValues vs).deterministic = true ↔ Asks "deterministic" vs) := by
  refine ⟨flagsOfAll_append vs ws, fun us h => ?_, ?_, fun f hf => ?_, ?_, ?_⟩
  · rw [ofValues, ofValues, h.flagsOfAll_eq]
  · change ofValues (flagsOfAll vs) = ofValues vs
    rw [ofValues, ofValues, flagsOfAll_flagsOfAll]
  · exact Value.asList?_eq_none_iff.mp (isFlag_of_mem_flagsOfAll hf).asList?_eq_none
  · exact hasFlag_eq_true_iff.trans text_mem_flagsOfAll_iff
  · exact hasFlag_eq_true_iff.trans text_mem_flagsOfAll_iff

end BackendOptions
end ModuleBuild
