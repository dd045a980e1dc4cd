import Mathlib.Data.List.Induction
import Mathlib.Data.List.Nodup

/-! # Sorting by a key

Things are sorted by comparing their keys.  What comes out is in the order of the keys
(`pairwise_mergeSort`), strictly so if no two things have the same key
(`pairwise_lt_mergeSort`): the comparisons of this project are equal at equal keys only.

Things with one key keep their places (`filter_mergeSort`), and nothing else is left open: two
sorted lists with the same things of each key, in the same order, are equal (`eq_of_filter_eq`).
A list without repetitions keeps the first of equal things.
-/
namespace ModuleBuild
namespace Sorting

section

variable {α κ : Type} (cmp : κ → κ → Ordering) [Std.TransCmp cmp] (key : α → κ) (l : List α)

/-- Of two things one may stand before the other. -/
theorem isLE_total (a b : α) :
    ((cmp (key a) (key b)).isLE || (cmp (key b) (key a)).isLE) = true := by
  have hswap : cmp (key b) (key a) = (cmp (key a) (key b)).swap := Std.OrientedCmp.eq_swap
  rw [hswap]
  cases cmp (key a) (key b) <;> rfl

/-- Sorted things are in the order of their keys. -/
theorem pairwise_mergeSort :
    (l.mergeSort fun a b => (cmp (key a) (key b)).isLE).Pairwise
      fun a b => (cmp (key a) (key b)).isLE = true :=
  List.pairwise_mergeSort (fun _ _ _ => Std.TransCmp.isLE_trans) (isLE_total cmp key) l

/-- Sorted things with different keys have their keys in strictly ascending order. -/
theorem pairwise_lt_mergeSort [Std.LawfulEqCmp cmp] (h : (l.map key).Nodup) :
    ((l.mergeSort fun a b => (cmp (key a) (key b)).isLE).map key).Pairwise
      fun p q => cmp p q = .lt := by
  have hle : ((l.mergeSort fun a b => (cmp (key a) (key b)).isLE).map key).Pairwise
      fun p q => (cmp p q).isLE = true :=
    List.pairwise_map.mpr (pairwise_mergeSort cmp key l)
  have hnodup : ((l.mergeSort fun a b => (cmp (key a) (key b)).isLE).map key).Nodup :=
    ((List.mergeSort_perm l _).map key).nodup_iff.mpr h
  refine (hle.and hnodup).imp ?_
  rintro p q ⟨hle, hne⟩
  cases hc : cmp p q with
  | lt => rfl
  | eq => exact absurd (Std.LawfulEqCmp.eq_of_compare hc) hne
  | gt =>
    rw [hc] at hle
    cases hle

end

section Stability

variable {α κ : Type} (cmp : κ → κ → Ordering) [Std.TransCmp cmp] [DecidableEq κ] (key : α → κ)

/-- Things with one key keep their places among each other. -/
theorem filter_mergeSort (l : List α) (k : κ) :
    (l.mergeSort fun a b => (cmp (key a) (key b)).isLE).filter (fun a => key a = k)
      = l.filter fun a => key a = k := by
  have hself : cmp k k = .eq := Std.ReflCmp.compare_self
  have hsame : (l.filter fun a => key a = k).Pairwise
      fun a b => (cmp (key a) (key b)).isLE = true := by
    refine List.pairwise_of_forall_mem_list fun a ha b hb => ?_
    rw [of_decide_eq_true (List.mem_filter.mp ha).2, of_decide_eq_true (List.mem_filter.mp hb).2,
      hself]
    rfl
  have hsub : (l.filter fun a => key a = k).Sublist
      ((l.mergeSort fun a b => (cmp (key a) (key b)).isLE).filter fun a => key a = k) := by
    have h := (List.sublist_mergeSort (fun _ _ _ => Std.TransCmp.isLE_trans)
      (isLE_total cmp key) hsame List.filter_sublist).filter fun a => key a = k
    simpa only [List.filter_filter, Bool.and_self] using h
  exact (hsub.eq_of_length ((List.mergeSort_perm l _).filter _).length_eq.symm).symm

variable [Std.LawfulEqCmp cmp]

/-- Things in the order of their keys are determined by those of each key in their order. -/
theorem eq_of_filter_eq {l l' : List α}
    (h : l.Pairwise fun a b => (cmp (key a) (key b)).isLE = true)
    (h' : l'.Pairwise fun a b => (cmp (key a) (key b)).isLE = true)
    (hfilter : ∀ k, (l.filter fun a => key a = k) = l'.filter fun a => key a = k) : l = l' := by
  induction l generalizing l' with
  | nil =>
    refine (List.eq_nil_iff_forall_not_mem.mpr fun b hb => ?_).symm
    have hmem : b ∈ l'.filter fun a => key a = key b := List.mem_filter.mpr ⟨hb, decide_eq_true rfl⟩
    rw [← hfilter] at hmem
    cases hmem
  | cons a rest ih =>
    have hmem {b : α} : b ∈ a :: rest ↔ b ∈ l' := by
      have := congrArg (b ∈ ·) (hfilter (key b))
      simpa using this
    obtain ⟨hfirst, hrest⟩ := List.pairwise_cons.mp h
    cases l' with
    | nil => cases hmem.mp List.mem_cons_self
    | cons b rest' =>
      obtain ⟨hfirst', hrest'⟩ := List.pairwise_cons.mp h'
      -- neither of the two first things comes after the other
      have hkey : key a = key b := by
        rcases List.mem_cons.mp (hmem.mpr List.mem_cons_self) with rfl | hb
        · rfl
        rcases List.mem_cons.mp (hmem.mp List.mem_cons_self) with rfl | ha
        · rfl
        exact Std.LawfulEqCmp.eq_of_compare
          (Std.OrientedCmp.isLE_antisymm (hfirst b hb) (hfirst' a ha))
      obtain ⟨rfl, -⟩ : a = b ∧ _ := by simpa [hkey] using hfilter (key a)
      refine congrArg (a :: ·) (ih hrest hrest' fun k => ?_)
      by_cases hk : key a = k
      · simpa [hk] using hfilter k
      · simpa [hk] using hfilter k

end Stability

section FirstOfEach

variable {α : Type} [BEq α] [LawfulBEq α]

theorem nodup_eraseDups : ∀ l : List α, l.eraseDups.Nodup
  | [] => List.nodup_nil
  | a :: rest => by
    rw [List.eraseDups_cons, List.nodup_cons]
    exact ⟨by simp, nodup_eraseDups (rest.filter fun b => !(b == a))⟩
termination_by l => l.length
decreasing_by exact Nat.lt_succ_of_le (List.length_filter_le _ _)

theorem eraseDups_append_singleton (l : List α) (a : α) :
    (l ++ [a]).eraseDups = if a ∈ l then l.eraseDups else l.eraseDups ++ [a] := by
  rw [List.eraseDups_append, List.removeAll]
  split
  · next ha => simp [ha]
  · next ha => simp [ha, List.eraseDups_cons]

theorem eraseDups_of_nodup {l : List α} (h : l.Nodup) : l.eraseDups = l := by
  induction l using List.reverseRecOn with
  | nil => rfl
  | append_singleton l a ih =>
    obtain ⟨hl, -, hne⟩ := List.nodup_append.mp h
    have ha : a ∉ l := fun hmem => hne a hmem a List.mem_cons_self rfl
    rw [eraseDups_append_singleton, if_neg ha, ih hl]

/-- Dropping repetitions from a part beforehand makes no difference. -/
theorem eraseDups_eraseDups_append (l l' : List α) :
    (l.eraseDups ++ l').eraseDups = (l ++ l').eraseDups := by
  have hremove : l'.removeAll l.eraseDups = l'.removeAll l := by
    refine List.filter_congr fun a _ => ?_
    simp
  rw [List.eraseDups_append, List.eraseDups_append, hremove,
    eraseDups_of_nodup (nodup_eraseDups l)]

theorem filter_eraseDups (q : α → Bool) (l : List α) :
    l.eraseDups.filter q = (l.filter q).eraseDups := by
  induction l using List.reverseRecOn with
  | nil => rfl
  | append_singleton l a ih =>
    rw [eraseDups_append_singleton, List.filter_append]
    cases hq : q a with
    | false => split <;> simp [hq, ih]
    | true =>
      rw [List.filter_cons_of_pos hq, List.filter_nil, eraseDups_append_singleton, ← ih]
      split <;> simp_all

end FirstOfEach

end Sorting
end ModuleBuild
