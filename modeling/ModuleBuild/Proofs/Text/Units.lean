import ModuleBuild.Proofs.Sorting
import ModuleBuild.Text.Units

/-! # The order of texts

Units spell the text they come from, so texts with equal units are equal, and
comparing units is a linear order of texts.  Sorted texts stand in that order.
-/
namespace ModuleBuild
namespace Text

/-- The units of a character spell it, whatever follows. -/
theorem ofUnits_charUnits_append (c : Char) (rest : List Nat) :
    ofUnits (charUnits c ++ rest) = c :: ofUnits rest := by
  have hvalid : c.toNat < 0xD800 ∨ 0xDFFF < c.toNat ∧ c.toNat < 0x110000 := c.valid
  unfold charUnits
  split
  case isTrue h =>
    have hscalar : ¬(0xD800 ≤ c.toNat ∧ c.toNat ≤ 0xDFFF) := by omega
    cases rest with
    | nil => simp [ofUnits, hscalar]
    | cons v rest =>
      have hhigh : ¬(0xD800 ≤ c.toNat ∧ c.toNat ≤ 0xDBFF ∧ 0xDC00 ≤ v ∧ v ≤ 0xDFFF) := by omega
      rw [List.singleton_append, ofUnits, if_neg hhigh, if_neg hscalar, Char.ofNat_toNat]
  case isFalse h =>
    have hpair : 0xD800 ≤ 0xD800 + (c.toNat - 0x10000) / 0x400
        ∧ 0xD800 + (c.toNat - 0x10000) / 0x400 ≤ 0xDBFF
        ∧ 0xDC00 ≤ 0xDC00 + (c.toNat - 0x10000) % 0x400
        ∧ 0xDC00 + (c.toNat - 0x10000) % 0x400 ≤ 0xDFFF := by omega
    have hjoin : 0x10000 + (0xD800 + (c.toNat - 0x10000) / 0x400 - 0xD800) * 0x400
        + (0xDC00 + (c.toNat - 0x10000) % 0x400 - 0xDC00) = c.toNat := by omega
    rw [List.cons_append, List.singleton_append, ofUnits, if_pos hpair, hjoin, Char.ofNat_toNat]

/-- Units spell the text they come from. -/
theorem ofUnits_units (s : String) : ofUnits (units s) = s.toList := by
  have hall : ∀ cs : List Char, ofUnits (cs.flatMap charUnits) = cs := by
    intro cs
    induction cs with
    | nil => rfl
    | cons c cs ih => rw [List.flatMap_cons, ofUnits_charUnits_append, ih]
  exact hall s.toList

theorem units_injective {a b : String} (h : units a = units b) : a = b := by
  apply String.toList_injective
  rw [← ofUnits_units a, h, ofUnits_units b]

/-! ## Comparing texts -/

instance : Std.TransCmp compareUnits := inferInstanceAs (Std.TransCmp (compareOn units))

instance : Std.LawfulEqCmp compareUnits where
  compare_self := Std.ReflCmp.compare_self
  eq_of_compare h := units_injective (Std.LawfulEqCmp.eq_of_compare h)

/-- Lists of units are compared unit by unit, and an end comes first. -/
theorem compareLex_eq_lt_iff {us vs : List Nat} :
    List.compareLex compare us vs = .lt ↔ us < vs := by
  induction us generalizing vs with
  | nil => cases vs <;> simp [List.compareLex]
  | cons u us ih =>
    cases vs with
    | nil => simp [List.compareLex]
    | cons v vs =>
      rw [List.compareLex, List.cons_lt_cons_iff]
      cases huv : compare u v with
      | lt => simp [Nat.compare_eq_lt.mp huv]
      | eq => simp [Nat.compare_eq_eq.mp huv, ih]
      | gt =>
        have hvu := Nat.compare_eq_gt.mp huv
        simp only [reduceCtorEq, false_iff]
        omega

theorem compareUnits_eq_lt_iff {a b : String} : compareUnits a b = .lt ↔ units a < units b :=
  compareLex_eq_lt_iff

/-- In unit order, and each text once. -/
def Ascending (l : List String) : Prop := l.Pairwise fun a b => compareUnits a b = .lt

theorem ascending_sort_eraseDups (l : List String) : Ascending (sort l.eraseDups) := by
  have hnodup : (l.eraseDups.map id).Nodup := by
    rw [List.map_id]
    exact Sorting.nodup_eraseDups l
  have h := Sorting.pairwise_lt_mergeSort compareUnits id l.eraseDups hnodup
  rwa [List.map_id] at h

@[simp] theorem mem_sort {s : String} {l : List String} : s ∈ sort l ↔ s ∈ l :=
  List.mem_mergeSort

end Text
end ModuleBuild
