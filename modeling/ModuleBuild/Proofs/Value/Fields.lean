import Mathlib.Data.List.Forall2
import Mathlib.Data.List.Induction
import ModuleBuild.Value.Basic

/-! # Fields in order

Writing entries in turn yields fields in order (`pairwise_fieldsOf`), and fields in
order are what writing them in turn yields (`fieldsOf_eq_self`).  Where a field stands
depends on the names alone, so whatever relates the values of two lists of entries
relates those of their fields (`SameFields.fieldsOf`).
-/
namespace ModuleBuild
namespace Value

variable {α β : Type}

/-- Fields with the same names whose values are related. -/
abbrev SameFields (R : α → β → Prop) : List (String × α) → List (String × β) → Prop :=
  List.Forall₂ fun e e' => e.1 = e'.1 ∧ R e.2 e'.2

/-- The first field may stand somewhere before the second. -/
def MayPrecede (e e' : String × α) : Prop := positionBefore e'.1 e.1 = false ∧ e.1 ≠ e'.1

/-! ## The order of names -/

theorem positionBefore_iff {a b : String} : positionBefore a b = true ↔
    ∃ m, position? a = some m ∧ ∀ n, position? b = some n → m < n := by
  unfold positionBefore
  cases position? a <;> cases position? b <;> simp

theorem positionBefore_asymm {a b : String} (h : positionBefore a b = true) :
    positionBefore b a = false := by
  obtain ⟨m, hm, hlt⟩ := positionBefore_iff.mp h
  by_contra hba
  obtain ⟨n, hn, hlt'⟩ := positionBefore_iff.mp (Bool.not_eq_false _ ▸ hba)
  exact Nat.lt_asymm (hlt n hn) (hlt' m hm)

theorem positionBefore_trans {a b c : String} (h₁ : positionBefore a b = true)
    (h₂ : positionBefore b c = true) : positionBefore a c = true := by
  obtain ⟨m, hm, hlt⟩ := positionBefore_iff.mp h₁
  obtain ⟨n, hn, hlt'⟩ := positionBefore_iff.mp h₂
  exact positionBefore_iff.mpr ⟨m, hm, fun k hk => Nat.lt_trans (hlt n hn) (hlt' k hk)⟩

/-! ## Finding -/

theorem findField_eq_none_iff {name : String} {fs : List (String × α)} :
    findField name fs = none ↔ ∀ e ∈ fs, e.1 ≠ name := by
  induction fs with
  | nil => simp [findField]
  | cons e rest ih =>
    obtain ⟨n, w⟩ := e
    by_cases h : n = name
    · simp [findField, h]
    · simp [findField, h, ih]

/-- A field that is found is one of the fields. -/
theorem mem_of_findField {name : String} {fs : List (String × α)} {v : α}
    (h : findField name fs = some v) : (name, v) ∈ fs := by
  induction fs with
  | nil => cases h
  | cons e rest ih =>
    obtain ⟨n, w⟩ := e
    rw [findField] at h
    split at h
    · next hn =>
      cases h
      exact hn ▸ List.mem_cons_self
    · exact List.mem_cons_of_mem _ (ih h)

theorem findField_filter_eq_none {name : String} {fs : List (String × α)}
    (p : String × α → Bool) (h : findField name fs = none) :
    findField name (fs.filter p) = none :=
  findField_eq_none_iff.mpr fun f hf =>
    findField_eq_none_iff.mp h f (List.mem_of_mem_filter hf)

theorem findField_map (f : α → β) (name : String) (fs : List (String × α)) :
    findField name (fs.map fun e => (e.1, f e.2)) = (findField name fs).map f := by
  induction fs with
  | nil => rfl
  | cons e rest ih =>
    obtain ⟨n, w⟩ := e
    by_cases h : n = name <;> simp [findField, h, ih]

theorem isSome_findField_map (f : α → β) (name : String) (fs : List (String × α)) :
    (findField name (fs.map fun e => (e.1, f e.2))).isSome = (findField name fs).isSome := by
  rw [findField_map, Option.isSome_map]

theorem findField_placeField {n name : String} {v : α} {fs : List (String × α)}
    (h : findField name fs = none) :
    findField n (placeField name v fs) = if name = n then some v else findField n fs := by
  induction fs with
  | nil => rfl
  | cons e rest ih =>
    obtain ⟨m, w⟩ := e
    have hne : m ≠ name := findField_eq_none_iff.mp h (m, w) List.mem_cons_self
    have hrest : findField name rest = none := by rwa [findField, if_neg hne] at h
    unfold placeField
    split
    · rfl
    · by_cases hm : m = n
      · subst hm
        simp [findField, hne.symm]
      · simp [findField, hm, ih hrest]

theorem findField_replaceField {n name : String} {v : α} {fs : List (String × α)}
    (h : (findField name fs).isSome) :
    findField n (replaceField name v fs) = if name = n then some v else findField n fs := by
  induction fs with
  | nil => cases h
  | cons e rest ih =>
    obtain ⟨m, w⟩ := e
    by_cases hm : m = name
    · subst hm
      by_cases hn : m = n <;> simp [replaceField, findField, hn]
    · have hrest : (findField name rest).isSome := by rwa [findField, if_neg hm] at h
      by_cases hn : m = n
      · subst hn
        simp [replaceField, findField, hm, Ne.symm hm]
      · simp [replaceField, findField, hm, hn, ih hrest]

/-- **A written field is found, and the others are as they were.** -/
theorem findField_writeField (n name : String) (v : α) (fs : List (String × α)) :
    findField n (writeField fs name v) = if name = n then some v else findField n fs := by
  unfold writeField
  cases h : findField name fs with
  | none => exact findField_placeField h
  | some w => exact findField_replaceField (by rw [h]; rfl)

theorem fieldsOf_append_singleton (es : List (String × α)) (e : String × α) :
    fieldsOf (es ++ [e]) = writeField (fieldsOf es) e.1 e.2 := by
  simp [fieldsOf]

/-- Fields hold the last value that was written to each name. -/
theorem findField_fieldsOf (name : String) (es : List (String × α)) :
    findField name (fieldsOf es) = findField name es.reverse := by
  induction es using List.reverseRecOn with
  | nil => rfl
  | append_singleton es e ih =>
    obtain ⟨n, v⟩ := e
    rw [fieldsOf_append_singleton, findField_writeField, ih, List.reverse_append]
    rfl

/-- The fields have the names of the entries. -/
theorem isSome_findField_fieldsOf (name : String) (es : List (String × α)) :
    (findField name (fieldsOf es)).isSome = (findField name es).isSome := by
  rw [Bool.eq_iff_iff, Option.isSome_iff_ne_none, Option.isSome_iff_ne_none, not_iff_not,
    findField_fieldsOf]
  simp only [findField_eq_none_iff, List.mem_reverse]

/-! ## Order -/

theorem names_replaceField (name : String) (v : α) (fs : List (String × α)) :
    (replaceField name v fs).map Prod.fst = fs.map Prod.fst := by
  induction fs with
  | nil => rfl
  | cons e rest ih =>
    obtain ⟨n, w⟩ := e
    by_cases h : n = name <;> simp [replaceField, h, ih]

theorem mem_placeField {name : String} {v : α} {fs : List (String × α)} {e : String × α} :
    e ∈ placeField name v fs ↔ e = (name, v) ∨ e ∈ fs := by
  induction fs with
  | nil => simp [placeField]
  | cons e' rest ih =>
    unfold placeField
    split
    · simp
    · simp only [List.mem_cons, ih]
      tauto

theorem pairwise_placeField {name : String} {v : α} {fs : List (String × α)}
    (hfs : fs.Pairwise MayPrecede) (hname : findField name fs = none) :
    (placeField name v fs).Pairwise MayPrecede := by
  have hne := findField_eq_none_iff.mp hname
  induction fs with
  | nil => exact List.pairwise_singleton ..
  | cons e rest ih =>
    obtain ⟨n, w⟩ := e
    obtain ⟨hhead, hrest⟩ := List.pairwise_cons.mp hfs
    unfold placeField
    split
    · next hbefore =>
      -- what stands after the new field does not belong before it
      refine List.pairwise_cons.mpr ⟨fun e' he' => ⟨?_, (hne e' he').symm⟩, hfs⟩
      rcases List.mem_cons.mp he' with rfl | he'
      · exact positionBefore_asymm hbefore
      · by_contra h
        have hlt := positionBefore_trans (Bool.not_eq_false _ ▸ h) hbefore
        exact absurd (hhead e' he').1 (by simp [hlt])
    · next hbefore =>
      have hfound : findField name rest = none :=
        findField_eq_none_iff.mpr fun e' he' => hne e' (List.mem_cons_of_mem _ he')
      refine List.pairwise_cons.mpr ⟨fun e' he' => ?_,
        ih hrest hfound fun e' he' => hne e' (List.mem_cons_of_mem _ he')⟩
      rcases mem_placeField.mp he' with rfl | he'
      · exact ⟨Bool.eq_false_iff.mpr hbefore, hne (n, w) List.mem_cons_self⟩
      · exact hhead e' he'

/-- Whether fields may stand in an order is a matter of their names. -/
theorem pairwise_of_names {fs : List (String × α)} {fs' : List (String × β)}
    (h : fs.map Prod.fst = fs'.map Prod.fst) (hfs : fs.Pairwise MayPrecede) :
    fs'.Pairwise MayPrecede := by
  have hnames : (fs.map Prod.fst).Pairwise fun a b => positionBefore b a = false ∧ a ≠ b :=
    List.pairwise_map.mpr hfs
  rw [h, List.pairwise_map] at hnames
  exact hnames

/-- **Writing entries in turn yields fields in order.** -/
theorem pairwise_fieldsOf (es : List (String × α)) : (fieldsOf es).Pairwise MayPrecede := by
  induction es using List.reverseRecOn with
  | nil => exact List.Pairwise.nil
  | append_singleton es e ih =>
    rw [fieldsOf_append_singleton, writeField]
    split
    · exact pairwise_of_names (names_replaceField ..).symm ih
    · next h => exact pairwise_placeField ih (Option.not_isSome_iff_eq_none.mp h)

theorem mem_of_mem_replaceField {name : String} {v : α} {fs : List (String × α)}
    {e : String × α} (h : e ∈ replaceField name v fs) : e = (name, v) ∨ e ∈ fs := by
  induction fs with
  | nil => cases h
  | cons e' rest ih =>
    unfold replaceField at h
    split at h
    · next hn =>
      rw [hn] at h
      exact (List.mem_cons.mp h).imp_right (List.mem_cons_of_mem _)
    · rcases List.mem_cons.mp h with rfl | h
      · exact .inr List.mem_cons_self
      · exact (ih h).imp_right (List.mem_cons_of_mem _)

/-- Every field is one of the entries. -/
theorem mem_of_mem_fieldsOf {e : String × α} {es : List (String × α)} (h : e ∈ fieldsOf es) :
    e ∈ es := by
  induction es using List.reverseRecOn with
  | nil => cases h
  | append_singleton es e' ih =>
    have hwritten : e = e' ∨ e ∈ fieldsOf es := by
      rw [fieldsOf_append_singleton, writeField] at h
      split at h
      · exact mem_of_mem_replaceField h
      · exact mem_placeField.mp h
    rcases hwritten with rfl | hold
    · exact List.mem_append_right _ List.mem_cons_self
    · exact List.mem_append_left _ (ih hold)

theorem placeField_of_last {name : String} {v : α} {fs : List (String × α)}
    (h : ∀ e ∈ fs, MayPrecede e (name, v)) : placeField name v fs = fs ++ [(name, v)] := by
  induction fs with
  | nil => rfl
  | cons e rest ih =>
    obtain ⟨n, w⟩ := e
    have hbefore := (h (n, w) List.mem_cons_self).1
    rw [placeField, hbefore, if_neg Bool.false_ne_true,
      ih fun e he => h e (List.mem_cons_of_mem _ he), List.cons_append]

/-- **Fields in order are what writing them in turn yields.** -/
theorem fieldsOf_eq_self {fs : List (String × α)} (h : fs.Pairwise MayPrecede) :
    fieldsOf fs = fs := by
  induction fs using List.reverseRecOn with
  | nil => rfl
  | append_singleton fs e ih =>
    obtain ⟨hfs, -, hlast⟩ := List.pairwise_append.mp h
    have hnew : ∀ e' ∈ fs, MayPrecede e' e := fun e' he' =>
      hlast e' he' e (List.mem_singleton.mpr rfl)
    have hnone : findField e.1 fs = none :=
      findField_eq_none_iff.mpr fun e' he' => (hnew e' he').2
    rw [fieldsOf_append_singleton, ih hfs, writeField, hnone]
    exact placeField_of_last hnew

theorem fieldsOf_eq_self_iff {fs : List (String × α)} :
    fieldsOf fs = fs ↔ fs.Pairwise MayPrecede :=
  ⟨fun h => h ▸ pairwise_fieldsOf fs, fieldsOf_eq_self⟩

/-! ## Related values -/

section Related

variable {R : α → β → Prop} {fs : List (String × α)} {gs : List (String × β)}

theorem SameFields.findField_isSome (h : SameFields R fs gs) (name : String) :
    (findField name fs).isSome = (findField name gs).isSome := by
  induction h with
  | nil => rfl
  | @cons e e' _ _ he _ ih =>
    obtain ⟨n, v⟩ := e
    obtain ⟨n', w⟩ := e'
    obtain ⟨rfl, -⟩ := he
    simp only [findField]
    split
    · rfl
    · exact ih

theorem SameFields.placeField (h : SameFields R fs gs) (name : String) {v : α} {w : β}
    (hvw : R v w) : SameFields R (placeField name v fs) (placeField name w gs) := by
  induction h with
  | nil => exact .cons ⟨rfl, hvw⟩ .nil
  | @cons e e' _ _ he htail ih =>
    obtain ⟨n, v'⟩ := e
    obtain ⟨n', w'⟩ := e'
    obtain ⟨rfl, hR⟩ := he
    simp only [Value.placeField]
    split
    · exact .cons ⟨rfl, hvw⟩ (.cons ⟨rfl, hR⟩ htail)
    · exact .cons ⟨rfl, hR⟩ ih

theorem SameFields.replaceField (h : SameFields R fs gs) (name : String) {v : α} {w : β}
    (hvw : R v w) : SameFields R (replaceField name v fs) (replaceField name w gs) := by
  induction h with
  | nil => exact .nil
  | @cons e e' _ _ he htail ih =>
    obtain ⟨n, v'⟩ := e
    obtain ⟨n', w'⟩ := e'
    obtain ⟨rfl, hR⟩ := he
    simp only [Value.replaceField]
    split
    · exact .cons ⟨rfl, hvw⟩ htail
    · exact .cons ⟨rfl, hR⟩ ih

/-- **Where a field stands depends on the names alone.** -/
theorem SameFields.fieldsOf (h : SameFields R fs gs) :
    SameFields R (fieldsOf fs) (fieldsOf gs) := by
  have hfold (init : List (String × α)) (init' : List (String × β))
      (hinit : SameFields R init init') :
      SameFields R (fs.foldl (fun l e => writeField l e.1 e.2) init)
        (gs.foldl (fun l e => writeField l e.1 e.2) init') := by
    induction h generalizing init init' with
    | nil => exact hinit
    | @cons e e' _ _ he _ ih =>
      refine ih _ _ ?_
      change SameFields R (writeField init e.1 e.2) (writeField init' e'.1 e'.2)
      rw [he.1, writeField, writeField, hinit.findField_isSome]
      split
      · exact hinit.replaceField _ he.2
      · exact hinit.placeField _ he.2
  exact hfold [] [] .nil

end Related

theorem sameFields_map_iff {f : α → β} {fs : List (String × α)} {gs : List (String × β)} :
    SameFields (fun v w => f v = w) fs gs ↔ fs.map (fun e => (e.1, f e.2)) = gs := by
  have hrel : (fun (e : String × α) (e' : String × β) => e.1 = e'.1 ∧ f e.2 = e'.2)
      = fun e e' => (e.1, f e.2) = e' := by
    funext e e'
    rw [Prod.ext_iff]
  rw [SameFields, hrel, ← List.forall₂_map_left_iff, List.forall₂_eq_eq_eq]

/-- Leaving fields in order out for their values hides only those. -/
theorem findField_filter {name : String} {fs : List (String × α)} (h : fs.Pairwise MayPrecede)
    (keep : α → Bool) :
    findField name (fs.filter fun e => keep e.2) = (findField name fs).filter keep := by
  induction fs with
  | nil => rfl
  | cons e rest ih =>
    obtain ⟨n, w⟩ := e
    obtain ⟨hfirst, hrest⟩ := List.pairwise_cons.mp h
    by_cases hn : n = name
    · subst hn
      -- no later field has this name
      have hnone : findField n rest = none :=
        findField_eq_none_iff.mpr fun e he => (hfirst e he).2.symm
      have hkept := ih hrest
      rw [hnone] at hkept
      cases hw : keep w <;> simp [findField, Option.filter, hw, hkept]
    · cases hw : keep w <;> simp [findField, hw, hn, ih hrest]

/-- **Changing values does not move fields.** -/
theorem fieldsOf_map (f : α → β) (es : List (String × α)) :
    fieldsOf (es.map fun e => (e.1, f e.2)) = (fieldsOf es).map fun e => (e.1, f e.2) :=
  (sameFields_map_iff.mp (sameFields_map_iff.mpr rfl : SameFields _ es _).fieldsOf).symm

end Value
end ModuleBuild
