import Mathlib.Data.List.Induction
import ModuleBuild.Proofs.Definition.Key
import ModuleBuild.Proofs.Definition.Order
import ModuleBuild.Proofs.Json.Numeral

/-! # Sorted pairs

A pair precedes another if its name comes first in the order of units, or if the names are equal
and its arity is smaller (`NameArity.compare_eq_lt_iff`).  The sorted pairs of a list stand in this
order, and they are the members of the list.  So they are determined by what the members are.

Repetitions may be dropped by what is written for a pair, as long as that tells the pairs apart
(`NameArity.sortBy_keyed`).  The key of a pair does, and so do its name and the text of its arity
as a number, with a slash between: no number's text has a slash, and integers with one text are
equal.
-/
namespace ModuleBuild

/-! ## The text of an integer -/

namespace Number

theorem slash_not_mem_chars {p : Json.NumeralParts} (hp : p.WellFormed) : '/' ∉ p.chars := by
  have hdigits {cs : List Char} (h : ∀ c ∈ cs, c.isDigit = true) : '/' ∉ cs := fun hmem =>
    absurd (h _ hmem) (by decide)
  have hfraction : '/' ∉ (if p.fraction = [] then [] else '.' :: p.fraction) := by
    split
    · exact List.not_mem_nil
    · exact List.not_mem_cons_of_ne_of_not_mem (by decide) (hdigits hp.fraction_digits)
  have hexponent : '/' ∉ Json.NumeralParts.exponentChars p.exponent := by
    cases p.exponent with
    | none => exact List.not_mem_nil
    | some e =>
      have hsign : '/' ≠ if e < 0 then '-' else '+' := by split <;> decide
      exact List.not_mem_cons_of_ne_of_not_mem (by decide) <|
        List.not_mem_cons_of_ne_of_not_mem hsign (hdigits fun _ => isDigit_toDigits)
  simp [Json.NumeralParts.chars, Json.NumeralParts.tail, hdigits hp.whole_digits, hfraction,
    hexponent]

theorem slash_not_mem_text (x : Number) : '/' ∉ x.text.toList := by
  cases x with
  | nan => decide
  | infinite negative => cases negative <;> decide
  | finite negative m =>
    rw [text]
    split
    · decide
    · next hm =>
      obtain ⟨p, hp, hchars, -⟩ := Decimal.exists_parts (Magnitude.digits_shortest_ne_zero hm)
      rw [String.toList_append, hchars, List.mem_append, not_or]
      refine ⟨?_, slash_not_mem_chars hp⟩
      split <;> decide

theorem toInt?_unsignedZero (x : Number) : x.unsignedZero.toInt? = x.toInt? := by
  cases x with
  | nan | infinite negative => rfl
  | finite negative m =>
    by_cases hm : m.val = 0
    · have hzero : m.ratio.1 = 0 := by
        rw [Magnitude.ratio, Magnitude.significand, if_pos (hm ▸ Nat.two_pow_pos 52), hm,
          Nat.zero_mul]
      simp [unsignedZero, hm, toInt?, hzero]
    · simp [unsignedZero, hm]

/-- Integers with one text are equal. -/
theorem eq_of_text_eq {x y : Number} {i j : Int} (hx : x.toInt? = some i) (hy : y.toInt? = some j)
    (h : x.text = y.text) : i = j := by
  -- Either is read back from the text, but for the sign of a zero.
  have hread {z : Number} {k : Int} (hz : z.toInt? = some k) :
      Json.readNumber z.text.toList = some (z.unsignedZero, []) := by
    have hfinite : z.isFinite = true := by
      cases z with
      | nan | infinite negative => cases hz
      | finite negative m => rfl
    have hnumeral := Json.readNumber_numeral hfinite Json.endsNumber_nil
    rwa [Json.numeral, if_pos hfinite, List.append_nil] at hnumeral
  have hsame : x.unsignedZero = y.unsignedZero :=
    (Prod.mk.inj (Option.some.inj ((hread hx).symm.trans (h ▸ hread hy)))).1
  have hint := congrArg toInt? hsame
  rw [toInt?_unsignedZero, toInt?_unsignedZero, hx, hy] at hint
  exact Option.some.inj hint

end Number

namespace NameArity

/-! ## The order of pairs -/

/-- By name in unit order, and then by arity. -/
def Precedes (p q : NameArity) : Prop :=
  Text.units p.name < Text.units q.name ∨ p.name = q.name ∧ p.arity < q.arity

theorem compare_eq_lt_iff {p q : NameArity} : compare p q = .lt ↔ p.Precedes q := by
  rw [compare, Ordering.then_eq_lt, Text.compareUnits_eq_lt_iff, compare_lt_iff_lt, Precedes,
    Std.LawfulEqCmp.compare_eq_iff_eq]

/-- A character of two units goes before one whose single unit is greater than the first of them,
although it stands for more. -/
example : Precedes ⟨"😀", 2⟩ ⟨"～", 1⟩ := by
  rw [← compare_eq_lt_iff]
  decide +kernel

/-! ## Pairs kept by what is written for them -/

section Keyed

variable {write : NameArity → String} {ps : List NameArity}

/-- Pairs under what is written for them; of those for which the same is written, the last one
stays. -/
def keyed (write : NameArity → String) (ps : List NameArity) : OrderedMap String NameArity :=
  ps.foldl (fun m p => m.insert (write p) p) .empty

theorem keyed_append_singleton (write : NameArity → String) (ps : List NameArity) (p : NameArity) :
    keyed write (ps ++ [p]) = (keyed write ps).insert (write p) p := by
  simp [keyed]

theorem of_get?_keyed {k : String} {p : NameArity} (h : (keyed write ps).get? k = some p) :
    p ∈ ps ∧ write p = k := by
  induction ps using List.reverseRecOn with
  | nil => cases h
  | append_singleton ps q ih =>
    rw [keyed_append_singleton, OrderedMap.get?_insert] at h
    split at h
    · next hk =>
      cases h
      exact ⟨by simp, hk⟩
    · exact ⟨List.mem_append_left _ (ih h).1, (ih h).2⟩

theorem exists_get?_keyed {p : NameArity} (hp : p ∈ ps) :
    ∃ q, (keyed write ps).get? (write p) = some q := by
  induction ps using List.reverseRecOn with
  | nil => cases hp
  | append_singleton ps q ih =>
    rw [keyed_append_singleton, OrderedMap.get?_insert]
    split
    · exact ⟨q, rfl⟩
    · next hk =>
      rcases List.mem_append.mp hp with hp | hp
      · exact ih hp
      · rw [List.mem_singleton.mp hp] at hk
        exact absurd rfl hk

/-- If what is written tells the pairs apart, each of them stays, and stays once. -/
theorem sortBy_keyed (hwrite : ∀ p ∈ ps, ∀ q ∈ ps, write p = write q → p = q) :
    sortBy id (keyed write ps).values = sorted ps := by
  -- What is written for the pairs that stay are the keys of the map, which are distinct.
  have hkeys : (keyed write ps).values.map write = (keyed write ps).keys := by
    rw [OrderedMap.values, OrderedMap.keys, List.map_map]
    exact List.map_congr_left fun e he => (of_get?_keyed (OrderedMap.mem_entries_iff.mp he)).2
  have hnodup : (keyed write ps).values.Nodup := .of_map write (hkeys ▸ (keyed write ps).nodup)
  have hascending := ascending_map_sortBy id (keyed write ps).values (by rwa [List.map_id])
  rw [List.map_id] at hascending
  refine hascending.ext (ascending_sorted ps) fun p => ?_
  rw [(perm_sortBy id _).mem_iff, mem_sorted]
  constructor
  · intro hp
    obtain ⟨e, he, rfl⟩ := List.mem_map.mp hp
    exact (of_get?_keyed (OrderedMap.mem_entries_iff.mp he)).1
  · intro hp
    obtain ⟨q, hq⟩ : ∃ q, (keyed write ps).get? (write p) = some q := exists_get?_keyed hp
    obtain ⟨hmem, hkey⟩ := of_get?_keyed hq
    obtain rfl := hwrite q hmem p hp hkey
    exact List.mem_map.mpr ⟨_, OrderedMap.mem_of_get? hq, rfl⟩

end Keyed

/-- A name and the text of a number tell the pairs of names and integers apart. -/
theorem eq_of_written_eq {p q : NameArity} {x y : Number} (hx : x.toInt? = some p.arity)
    (hy : y.toInt? = some q.arity) (h : p.name ++ "/" ++ x.text = q.name ++ "/" ++ y.text) :
    p = q := by
  have hchars := congrArg String.toList h
  simp only [String.toList_append, List.append_assoc] at hchars
  obtain ⟨hname, harity⟩ := append_cons_inj_of_last (Number.slash_not_mem_text x)
    (Number.slash_not_mem_text y) hchars
  have harity := Number.eq_of_text_eq hx hy (String.toList_injective harity)
  obtain ⟨n, i⟩ := p
  obtain ⟨n', j⟩ := q
  obtain rfl : n = n' := String.toList_injective hname
  obtain rfl : i = j := harity
  rfl

/-- Lists have the same sorted pairs if and only if they have the same members. -/
theorem sorted_eq_sorted_iff {ps qs : List NameArity} :
    sorted ps = sorted qs ↔ ∀ p, p ∈ ps ↔ p ∈ qs := by
  constructor
  · intro h p
    rw [← mem_sorted, h, mem_sorted]
  · intro h
    refine (ascending_sorted ps).ext (ascending_sorted qs) fun p => ?_
    rw [mem_sorted, mem_sorted, h]

/-- **Sorting pairs keeps each pair once, in order.**  The sorted pairs are in strictly ascending
order of names and then of arities, and they are the members of the list.  They are what is left
when repetitions are dropped by the keys of the pairs, for no two pairs have one key, or by their
names and the texts of the numbers that their arities are.  So they depend on the members of the
list only. -/
theorem sorting_laws (ps : List NameArity) :
    (sorted ps).Pairwise Precedes ∧
    (∀ p, p ∈ sorted ps ↔ p ∈ ps) ∧
    (∀ p q : NameArity, p.key = q.key ↔ p = q) ∧
    sorted ps = sortBy id (keyed key ps).values ∧
    (∀ arity : NameArity → Number, (∀ p ∈ ps, (arity p).toInt? = some p.arity) →
      sorted ps = sortBy id (keyed (fun p => p.name ++ "/" ++ (arity p).text) ps).values) ∧
    ∀ qs, sorted ps = sorted qs ↔ ∀ p, p ∈ ps ↔ p ∈ qs := by
  refine ⟨(ascending_sorted ps).imp compare_eq_lt_iff.mp, fun p => mem_sorted,
    fun p q => ⟨key_injective, congrArg key⟩, ?_, fun arity harity => ?_,
    fun qs => sorted_eq_sorted_iff⟩
  · exact (sortBy_keyed fun p _ q _ => key_injective).symm
  · exact (sortBy_keyed fun p hp q hq => eq_of_written_eq (harity p hp) (harity q hq)).symm

/-- Names that go on with a slash, arities that are compared as numbers, and a repeated pair. -/
theorem sorting_laws_slashed :
    let ps : List NameArity :=
      [⟨"a/1", 2⟩, ⟨"a", 10⟩, ⟨"～", 1⟩, ⟨"a/1", 2⟩, ⟨"a", 9⟩, ⟨"😀", 1⟩]
    (∀ p ∈ ps, (Number.ofInt p.arity).toInt? = some p.arity) ∧
      sorted ps = [⟨"a", 9⟩, ⟨"a", 10⟩, ⟨"a/1", 2⟩, ⟨"😀", 1⟩, ⟨"～", 1⟩] ∧
      (sortBy id (keyed (fun p => p.name ++ "/" ++ (Number.ofInt p.arity).text) ps).values).length
        = 5 := by
  intro ps
  have hnumbers : ∀ p ∈ ps, (Number.ofInt p.arity).toInt? = some p.arity := by decide +kernel
  obtain ⟨-, -, -, -, hwritten, hmembers⟩ := sorting_laws ps
  have hsorted :
      sorted ps = [⟨"a", 9⟩, ⟨"a", 10⟩, ⟨"a/1", 2⟩, ⟨"😀", 1⟩, ⟨"～", 1⟩] := by
    refine ((hmembers _).mpr fun p => ?_).trans (sorted_of_ascending (by decide +kernel))
    simp only [ps, List.mem_cons, List.not_mem_nil, or_false]
    tauto
  exact ⟨hnumbers, hsorted, by rw [← hwritten _ hnumbers, hsorted]; rfl⟩

end NameArity
end ModuleBuild
