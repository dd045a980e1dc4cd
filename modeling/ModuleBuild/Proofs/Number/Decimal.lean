import Mathlib.Tactic.FieldSimp
import ModuleBuild.Proofs.Number.Digits
import ModuleBuild.Proofs.Number.Rounding

/-! # Decimals that denote a magnitude

`Magnitude.ofDecimal` depends on the value of a decimal alone: zeros may be moved
between the digits and the exponent (`ofDecimal_shift`).  The decimal that a magnitude
is reads back as the magnitude (`ofDecimal_exactDecimal`), and so does the shortest one
(`ofDecimal_shortest`).
-/
namespace ModuleBuild

namespace Decimal

/-- The value of a decimal. -/
def value (d : Decimal) : ℚ := d.digits * 10 ^ d.exponent

/-- The position of the point, counted from before the first digit. -/
def point (d : Decimal) : Int := (Nat.toDigits 10 d.digits).length + d.exponent

theorem value_lt (d : Decimal) : d.value < 10 ^ d.point := by
  rw [value, point, zpow_add₀ (by norm_num)]
  gcongr
  exact_mod_cast lt_pow_length_toDigits d.digits

theorem le_value {d : Decimal} (hd : d.digits ≠ 0) : 10 ^ (d.point - 1) ≤ d.value := by
  have hlength : 0 < (Nat.toDigits 10 d.digits).length := Nat.length_toDigits_pos
  have hpow : (10 : ℚ) ^ (((Nat.toDigits 10 d.digits).length - 1 : Nat) : Int) ≤ d.digits := by
    exact_mod_cast pow_length_toDigits_le (Nat.pos_of_ne_zero hd)
  rw [value, point, show ((Nat.toDigits 10 d.digits).length : Int) + d.exponent - 1
    = ((Nat.toDigits 10 d.digits).length - 1 : Nat) + d.exponent by omega,
    zpow_add₀ (by norm_num)]
  gcongr

end Decimal

namespace Magnitude

open Decimal

/-- Zeros move between the digits and the exponent of a decimal. -/
theorem ofDecimal_shift {n : Nat} (hn : 0 < n) (k : Nat) (e : Int) :
    ofDecimal ⟨n * 10 ^ k, e⟩ = ofDecimal ⟨n, e + k⟩ := by
  have hpos : n * 10 ^ k ≠ 0 := by positivity
  have hlength : ((Nat.toDigits 10 (n * 10 ^ k)).length : Int) + e
      = (Nat.toDigits 10 n).length + (e + k) := by
    rw [toDigits_mul_ten hn, List.length_append, List.length_replicate]
    omega
  unfold ofDecimal
  simp only [hpos, hn.ne', hlength, false_or, Nat.pow_eq]
  -- the point does not move, so both decimals are within the bounds or neither is
  split
  · rfl
  split
  · rfl
  · refine ofRatio_congr (by positivity) (by positivity) ?_
    have hexp : k + e.toNat + (-(e + k)).toNat = (e + k).toNat + (-e).toNat := by omega
    calc n * 10 ^ k * 10 ^ e.toNat * 10 ^ (-(e + k)).toNat
        = n * 10 ^ (k + e.toNat + (-(e + k)).toNat) := by
          rw [pow_add, pow_add]
          ring
      _ = n * 10 ^ ((e + k).toNat + (-e).toNat) := by rw [hexp]
      _ = n * 10 ^ (e + k).toNat * 10 ^ (-e).toNat := by rw [pow_add, mul_assoc]

theorem two_pow_lt_ten_pow : (2 : ℚ) ^ (1074 : Int) < 10 ^ (330 : Int) := by
  have h : 2 ^ 1074 < 10 ^ 330 := by decide +kernel
  exact_mod_cast h

/-- A decimal with the value of a positive magnitude reads back as the magnitude. -/
theorem ofDecimal_of_value {d : Decimal} {x : Magnitude} (hx : x.val ≠ 0)
    (h : d.value = x.significand * 2 ^ x.exponent) : ofDecimal d = some x := by
  have hdigits : d.digits ≠ 0 := by
    intro hzero
    have hpos : (0 : ℚ) < x.significand * 2 ^ x.exponent := by
      have := significand_pos hx
      positivity
    rw [← h, value, hzero] at hpos
    simp at hpos
  -- the value lies between the bounds beyond which decimals are not looked at
  have hlow : -330 < d.point := by
    refine (zpow_lt_zpow_iff_right₀ (by norm_num : (1 : ℚ) < 10)).mp ?_
    calc (10 : ℚ) ^ (-330 : Int) < 2 ^ (-1074 : Int) := by
          rw [zpow_neg, zpow_neg]
          exact inv_strictAnti₀ (by positivity) two_pow_lt_ten_pow
      _ ≤ x.significand * 2 ^ x.exponent := two_pow_le_value hx
      _ = d.value := h.symm
      _ < 10 ^ d.point := d.value_lt
  have hhigh : d.point - 1 < 330 := by
    refine (zpow_lt_zpow_iff_right₀ (by norm_num : (1 : ℚ) < 10)).mp ?_
    calc (10 : ℚ) ^ (d.point - 1) ≤ d.value := le_value hdigits
      _ = x.significand * 2 ^ x.exponent := h
      _ < 2 ^ (1024 : Int) := value_lt_two_pow x
      _ ≤ 2 ^ (1074 : Int) := zpow_le_zpow_right₀ one_le_two (by decide)
      _ < 10 ^ (330 : Int) := two_pow_lt_ten_pow
  -- as fractions, the decimal and the magnitude are equal
  have hcross : ofRatio (d.digits * 10 ^ d.exponent.toNat) (10 ^ (-d.exponent).toNat)
      = ofRatio x.ratio.1 x.ratio.2 := by
    refine ofRatio_congr (by positivity) (ratio_den_pos x) ?_
    have hden : (x.ratio.2 : ℚ) ≠ 0 := by exact_mod_cast (ratio_den_pos x).ne'
    have hten := zpow_eq_div 10 d.exponent
    rw [← ratio_eq, value] at h
    push_cast at hten
    rw [hten, ← mul_div_assoc, div_eq_div_iff (by positivity) hden] at h
    exact_mod_cast h
  rw [point] at hlow hhigh
  unfold ofDecimal
  simp only [Nat.pow_eq]
  rw [if_neg (by omega), if_neg (by omega), hcross, ofRatio_ratio]

theorem ofDecimal_exactDecimal {x : Magnitude} (hx : x.val ≠ 0) :
    ofDecimal x.exactDecimal = some x := by
  refine ofDecimal_of_value hx ?_
  by_cases hexp : 0 ≤ x.exponent
  · have hpow := zpow_eq_div 2 x.exponent
    rw [show (-x.exponent).toNat = 0 by omega] at hpow
    push_cast at hpow
    simp [exactDecimal, hexp, value, hpow]
  · -- a negative power of two is brought to a power of ten
    have hpow := zpow_eq_div 2 x.exponent
    have hten := zpow_eq_div 10 x.exponent
    rw [show x.exponent.toNat = 0 by omega] at hpow hten
    push_cast at hpow hten
    simp only [exactDecimal, hexp, if_false, value, hpow, hten, Nat.pow_eq]
    push_cast
    rw [show (10 : ℚ) = 2 * 5 by norm_num, mul_pow]
    field_simp

/-- A decimal is found on a grid only if it reads back. -/
theorem ofDecimal_of_onGrid {x : Magnitude} {e : Int} {d : Decimal} (h : x.onGrid e = some d) :
    ofDecimal d = some x := by
  simp only [onGrid] at h
  have hread := List.find?_some h
  exact of_decide_eq_true hread

/-- **The shortest decimal of a magnitude reads back as the magnitude.** -/
theorem ofDecimal_shortest {x : Magnitude} (hx : x.val ≠ 0) : ofDecimal x.shortest = some x := by
  have hshortest : x.shortest = ((List.range 17).findSome? fun n =>
    x.onGrid (x.decimalPoint - (n + 1 : Nat))).getD x.exactDecimal := rfl
  rw [hshortest]
  cases hfound : (List.range 17).findSome? fun n => x.onGrid (x.decimalPoint - (n + 1 : Nat)) with
  | none =>
    rw [Option.getD_none]
    exact ofDecimal_exactDecimal hx
  | some d =>
    obtain ⟨n, -, hgrid⟩ := List.exists_of_findSome?_eq_some hfound
    rw [Option.getD_some]
    exact ofDecimal_of_onGrid hgrid

end Magnitude
end ModuleBuild
