import Mathlib.Algebra.Order.Field.Power
import Mathlib.Algebra.Order.Field.Rat
import Mathlib.Data.Rat.Cast.Order
import Mathlib.Tactic.NormNum
import Mathlib.Tactic.Positivity
import Mathlib.Tactic.Ring
import ModuleBuild.Number.Decimal

/-! # Rounding fractions to magnitudes

`Magnitude.ofRatio` depends on the value of its fraction alone (`ofRatio_congr`), and
the fraction that a magnitude is rounds to that magnitude (`ofRatio_ratio`).  Both
follow from what `floorLog2` is: the only exponent with `2 ^ e ≤ num / den < 2 ^ (e + 1)`.
-/
namespace ModuleBuild
namespace Magnitude

/-! ## Fractions and powers -/

/-- A power with an integer exponent as a fraction of natural powers. -/
theorem zpow_eq_div (b : Nat) (k : Int) :
    (b : ℚ) ^ k = (b ^ k.toNat : Nat) / (b ^ (-k).toNat : Nat) := by
  cases k with
  | ofNat n => simp
  | negSucc n => simp [zpow_negSucc]

/-- Comparing a fraction with a power, in natural numbers. -/
theorem div_lt_zpow_iff {b num den : Nat} (hb : 0 < b) (hd : 0 < den) (k : Int) :
    (num : ℚ) / den < (b : ℚ) ^ k ↔ num * b ^ (-k).toNat < den * b ^ k.toNat := by
  have hpow : (0 : ℚ) < (b ^ (-k).toNat : Nat) := by exact_mod_cast Nat.pow_pos hb
  have hden : (0 : ℚ) < den := by exact_mod_cast hd
  rw [zpow_eq_div, div_lt_div_iff₀ hden hpow, mul_comm ((b ^ k.toNat : Nat) : ℚ)]
  exact_mod_cast Iff.rfl

/-! ## The binary logarithm -/

/-- `floorLog2` is the exponent of the greatest power of two not above the fraction. -/
theorem floorLog2_spec {num den : Nat} (hn : 0 < num) (hd : 0 < den) :
    (2 : ℚ) ^ floorLog2 num den ≤ num / den ∧ (num : ℚ) / den < 2 ^ (floorLog2 num den + 1) := by
  have hden : (0 : ℚ) < den := by exact_mod_cast hd
  have hnum₁ : (2 : ℚ) ^ (num.log2 : Int) ≤ num := by
    exact_mod_cast Nat.log2_self_le hn.ne'
  have hnum₂ : (num : ℚ) < 2 ^ ((num.log2 : Int) + 1) := by
    exact_mod_cast Nat.lt_log2_self
  have hden₁ : (2 : ℚ) ^ (den.log2 : Int) ≤ den := by
    exact_mod_cast Nat.log2_self_le hd.ne'
  have hden₂ : (den : ℚ) < 2 ^ ((den.log2 : Int) + 1) := by
    exact_mod_cast Nat.lt_log2_self
  -- the two logarithms leave two candidates, one apart, and a comparison decides
  have hlow : (2 : ℚ) ^ ((num.log2 : Int) - den.log2 - 1) ≤ num / den := by
    rw [le_div_iff₀ hden]
    calc (2 : ℚ) ^ ((num.log2 : Int) - den.log2 - 1) * den
        ≤ 2 ^ ((num.log2 : Int) - den.log2 - 1) * 2 ^ ((den.log2 : Int) + 1) := by gcongr
      _ = 2 ^ (num.log2 : Int) := by
        rw [← zpow_add₀ two_ne_zero]
        congr 1
        omega
      _ ≤ num := hnum₁
  have hhigh : (num : ℚ) / den < 2 ^ ((num.log2 : Int) - den.log2 + 1) := by
    rw [div_lt_iff₀ hden]
    calc (num : ℚ) < 2 ^ ((num.log2 : Int) + 1) := hnum₂
      _ = 2 ^ ((num.log2 : Int) - den.log2 + 1) * 2 ^ (den.log2 : Int) := by
        rw [← zpow_add₀ two_ne_zero]
        congr 1
        omega
      _ ≤ 2 ^ ((num.log2 : Int) - den.log2 + 1) * den := by gcongr
  have htest := @div_lt_zpow_iff 2 num den two_pos hd ((num.log2 : Int) - den.log2)
  have hfloor : floorLog2 num den
      = if num * 2 ^ (-((num.log2 : Int) - den.log2)).toNat
          < den * 2 ^ ((num.log2 : Int) - den.log2).toNat
        then (num.log2 : Int) - den.log2 - 1 else (num.log2 : Int) - den.log2 := rfl
  by_cases h : (num : ℚ) / den < 2 ^ ((num.log2 : Int) - den.log2)
  · rw [hfloor, if_pos (htest.mp (by exact_mod_cast h)), sub_add_cancel]
    exact ⟨hlow, h⟩
  · rw [hfloor, if_neg fun hlt => h (by exact_mod_cast htest.mpr hlt)]
    exact ⟨le_of_not_gt h, hhigh⟩

/-- No other exponent is one of the fraction's. -/
theorem floorLog2_eq {num den : Nat} (hn : 0 < num) (hd : 0 < den) {e : Int}
    (hlow : (2 : ℚ) ^ e ≤ num / den) (hhigh : (num : ℚ) / den < 2 ^ (e + 1)) :
    floorLog2 num den = e := by
  obtain ⟨hlow', hhigh'⟩ := floorLog2_spec hn hd
  have h₁ : floorLog2 num den < e + 1 :=
    (zpow_lt_zpow_iff_right₀ one_lt_two).mp (hlow'.trans_lt hhigh)
  have h₂ : e < floorLog2 num den + 1 :=
    (zpow_lt_zpow_iff_right₀ one_lt_two).mp (hlow.trans_lt hhigh')
  omega

/-! ## Rounding -/

theorem roundHalfEven_mul (num den : Nat) {k : Nat} (hk : 0 < k) :
    roundHalfEven (num * k) (den * k) = roundHalfEven num den := by
  have h₁ : 2 * (num % den * k) < den * k ↔ 2 * (num % den) < den := by
    rw [← mul_assoc]
    exact Nat.mul_lt_mul_right hk
  have h₂ : den * k < 2 * (num % den * k) ↔ den < 2 * (num % den) := by
    rw [← mul_assoc]
    exact Nat.mul_lt_mul_right hk
  simp only [roundHalfEven, Nat.mul_div_mul_right _ _ hk, Nat.mul_mod_mul_right, h₁, h₂]

/-- Rounding to an integer depends on the value of the fraction alone. -/
theorem roundHalfEven_congr {a b c d : Nat} (hb : 0 < b) (hd : 0 < d) (h : a * d = c * b) :
    roundHalfEven a b = roundHalfEven c d := by
  rw [← roundHalfEven_mul a b hd, h, mul_comm b d, roundHalfEven_mul c d hb]

@[simp] theorem roundHalfEven_mul_self (n : Nat) {d : Nat} (hd : 0 < d) :
    roundHalfEven (n * d) d = n := by
  simp [roundHalfEven, Nat.mul_div_cancel _ hd, hd]

/-- Equal fractions have equal quotients. -/
theorem div_eq_div_of_cross {a b c d : Nat} (hb : 0 < b) (hd : 0 < d) (h : a * d = c * b) :
    (a : ℚ) / b = c / d := by
  rw [div_eq_div_iff (by exact_mod_cast hb.ne') (by exact_mod_cast hd.ne')]
  exact_mod_cast h

theorem floorLog2_congr {a b c d : Nat} (ha : 0 < a) (hb : 0 < b) (hc : 0 < c) (hd : 0 < d)
    (h : a * d = c * b) : floorLog2 a b = floorLog2 c d := by
  obtain ⟨hlow, hhigh⟩ := floorLog2_spec hc hd
  rw [← div_eq_div_of_cross hb hd h] at hlow hhigh
  exact floorLog2_eq ha hb hlow hhigh

theorem nearest_congr {a b c d : Nat} (ha : 0 < a) (hb : 0 < b) (hc : 0 < c) (hd : 0 < d)
    (h : a * d = c * b) : nearest a b = nearest c d := by
  unfold nearest
  rw [floorLog2_congr ha hb hc hd h]
  generalize max (floorLog2 c d - 52) (-1074) = e
  simp only [Nat.pow_eq]
  rw [roundHalfEven_congr (Nat.mul_pos hb (Nat.pow_pos two_pos))
    (Nat.mul_pos hd (Nat.pow_pos two_pos))]
  calc a * 2 ^ (-e).toNat * (d * 2 ^ e.toNat)
      = a * d * (2 ^ (-e).toNat * 2 ^ e.toNat) := by ring
    _ = c * b * (2 ^ (-e).toNat * 2 ^ e.toNat) := by rw [h]
    _ = c * 2 ^ (-e).toNat * (b * 2 ^ e.toNat) := by ring

/-- **Rounding depends on the value of the fraction alone.** -/
theorem ofRatio_congr {a b c d : Nat} (hb : 0 < b) (hd : 0 < d) (h : a * d = c * b) :
    ofRatio a b = ofRatio c d := by
  rcases Nat.eq_zero_or_pos a with rfl | ha
  · have hc : c = 0 := by
      rw [zero_mul] at h
      exact (Nat.mul_eq_zero.mp h.symm).resolve_right hb.ne'
    simp [ofRatio, hc]
  · have hc : 0 < c := Nat.pos_of_mul_pos_right (h ▸ Nat.mul_pos ha hd)
    simp only [ofRatio, ha.ne', hc.ne', if_false, nearest_congr ha hb hc hd h]

/-! ## The fraction of a magnitude -/

theorem significand_pos {x : Magnitude} (hx : x.val ≠ 0) : 0 < x.significand := by
  unfold significand
  split
  · omega
  · have : 0 < binade := by decide
    omega

theorem ratio_den_pos (x : Magnitude) : 0 < x.ratio.2 := Nat.pow_pos two_pos

theorem ratio_num_pos {x : Magnitude} (hx : x.val ≠ 0) : 0 < x.ratio.1 :=
  Nat.mul_pos (significand_pos hx) (Nat.pow_pos two_pos)

/-- The value of a magnitude. -/
theorem ratio_eq (x : Magnitude) :
    (x.ratio.1 : ℚ) / x.ratio.2 = x.significand * 2 ^ x.exponent := by
  have h := zpow_eq_div 2 x.exponent
  push_cast at h
  rw [h, ratio]
  simp [mul_div_assoc]

theorem binade_eq : binade = 2 ^ 52 := rfl

theorem significand_lt (x : Magnitude) : x.significand < 2 ^ 53 := by
  have hmod : x.val % binade < binade := Nat.mod_lt _ (by decide)
  have hbinade := binade_eq
  unfold significand
  split <;> omega

theorem exponent_bounds (x : Magnitude) : -1074 ≤ x.exponent ∧ x.exponent ≤ 971 := by
  have hlt : x.val / binade < 2047 := Nat.div_lt_of_lt_mul (mul_comm 2047 binade ▸ x.isLt)
  unfold exponent
  split
  · omega
  · next h =>
    have hdiv : 1 ≤ x.val / binade := Nat.div_pos (Nat.le_of_not_lt h) (by decide)
    omega

/-- No positive magnitude is less than the least power of two. -/
theorem two_pow_le_value {x : Magnitude} (hx : x.val ≠ 0) :
    (2 : ℚ) ^ (-1074 : Int) ≤ x.significand * 2 ^ x.exponent := by
  have hsig : (1 : ℚ) ≤ x.significand := by exact_mod_cast significand_pos hx
  calc (2 : ℚ) ^ (-1074 : Int) ≤ 2 ^ x.exponent :=
        zpow_le_zpow_right₀ one_le_two x.exponent_bounds.1
    _ ≤ x.significand * 2 ^ x.exponent := le_mul_of_one_le_left (by positivity) hsig

theorem value_lt_two_pow (x : Magnitude) :
    x.significand * (2 : ℚ) ^ x.exponent < 2 ^ (1024 : Int) := by
  have hsig : (x.significand : ℚ) < 2 ^ (53 : Int) := by exact_mod_cast x.significand_lt
  calc x.significand * (2 : ℚ) ^ x.exponent < 2 ^ (53 : Int) * 2 ^ x.exponent := by gcongr
    _ ≤ 2 ^ (53 : Int) * 2 ^ (971 : Int) := by
      gcongr
      · exact one_le_two
      · exact x.exponent_bounds.2
    _ = 2 ^ (1024 : Int) := by
      rw [← zpow_add₀ two_ne_zero]
      rfl

/-- The exponent that rounding finds for the fraction of a magnitude. -/
theorem exponent_eq {x : Magnitude} (hx : x.val ≠ 0) :
    max (floorLog2 x.ratio.1 x.ratio.2 - 52) (-1074) = x.exponent := by
  have hn := ratio_num_pos hx
  have hd := ratio_den_pos x
  by_cases hsmall : x.val < binade
  · -- fewer than 53 significant bits: the least exponent
    have hexp : x.exponent = -1074 := by rw [exponent, if_pos hsmall]
    have hsig : (x.significand : ℚ) < 2 ^ (52 : Int) := by
      rw [significand, if_pos hsmall]
      exact_mod_cast binade_eq ▸ hsmall
    obtain ⟨hlow, -⟩ := floorLog2_spec hn hd
    rw [ratio_eq, hexp] at hlow
    have hlt : (2 : ℚ) ^ floorLog2 x.ratio.1 x.ratio.2 < 2 ^ (52 + -1074 : Int) := by
      refine hlow.trans_lt ?_
      rw [zpow_add₀ two_ne_zero]
      gcongr
    have := (zpow_lt_zpow_iff_right₀ one_lt_two).mp hlt
    rw [hexp]
    omega
  · -- 53 significant bits: the significand lies within one power of two
    have hsig : x.significand = binade + x.val % binade := by rw [significand, if_neg hsmall]
    have hmod : x.val % binade < binade := Nat.mod_lt _ (by decide)
    have hexp : x.exponent = (x.val / binade : Nat) - 1075 := by rw [exponent, if_neg hsmall]
    have hdiv : 1 ≤ x.val / binade := Nat.div_pos (Nat.le_of_not_lt hsmall) (by decide)
    have hbinade := binade_eq
    have hfloor : floorLog2 x.ratio.1 x.ratio.2 = 52 + x.exponent := by
      refine floorLog2_eq hn hd ?_ ?_
      · rw [ratio_eq, zpow_add₀ two_ne_zero]
        gcongr
        exact_mod_cast (by omega : 2 ^ 52 ≤ x.significand)
      · rw [ratio_eq, show 52 + x.exponent + 1 = 53 + x.exponent by ring, zpow_add₀ two_ne_zero]
        gcongr
        exact_mod_cast (by omega : x.significand < 2 ^ 53)
    rw [hfloor]
    omega

theorem nearest_ratio {x : Magnitude} (hx : x.val ≠ 0) :
    nearest x.ratio.1 x.ratio.2 = x.val := by
  have hround : roundHalfEven (x.ratio.1 * 2 ^ (-x.exponent).toNat)
      (x.ratio.2 * 2 ^ x.exponent.toNat) = x.significand := by
    rw [ratio]
    simp only [Nat.pow_eq]
    rw [mul_assoc, mul_comm (2 ^ x.exponent.toNat)]
    exact roundHalfEven_mul_self _ (by positivity)
  unfold nearest
  rw [exponent_eq hx]
  simp only [Nat.pow_eq, hround]
  by_cases hsmall : x.val < binade
  · simp [exponent, significand, hsmall]
  · -- the leading bit of the significand stands for the powers of two that were passed
    have hdiv : 1 ≤ x.val / binade := Nat.div_pos (Nat.le_of_not_lt hsmall) (by decide)
    have hexp : (x.exponent + 1074).toNat = x.val / binade - 1 := by
      rw [exponent, if_neg hsmall]
      omega
    rw [hexp, significand, if_neg hsmall, ← add_assoc, ← Nat.succ_mul, Nat.succ_eq_add_one,
      Nat.sub_add_cancel hdiv]
    exact Nat.div_add_mod' _ _

/-- **A magnitude's own fraction rounds to it.** -/
theorem ofRatio_ratio (x : Magnitude) : ofRatio x.ratio.1 x.ratio.2 = some x := by
  by_cases hx : x.val = 0
  · have hzero : x = zero := Fin.ext hx
    subst hzero
    rfl
  · simp [ofRatio, (ratio_num_pos hx).ne', nearest_ratio hx]

/-- A positive integer is not rounded to zero. -/
theorem nearest_one_pos {n : Nat} (hn : 0 < n) : 0 < nearest n 1 := by
  have hlog : 0 < floorLog2 n 1 + 1 := by
    have hlt := (floorLog2_spec hn one_pos).2
    have hone : (1 : ℚ) ≤ n := by exact_mod_cast hn
    rw [Nat.cast_one, div_one] at hlt
    exact (one_lt_zpow_iff_right₀ one_lt_two).mp (hone.trans_lt hlt)
  have hunit : 0 < (max (floorLog2 n 1 - 52) (-1074) + 1074).toNat := by omega
  exact Nat.add_pos_left (Nat.mul_pos hunit (by decide)) _

theorem ofRatio_one_ne_zero {n : Nat} {x : Magnitude} (hn : 0 < n) (h : ofRatio n 1 = some x) :
    x.val ≠ 0 := by
  rw [ofRatio, if_neg hn.ne'] at h
  split at h
  · cases h
    exact (nearest_one_pos hn).ne'
  · cases h

end Magnitude
end ModuleBuild
