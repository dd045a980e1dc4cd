import Mathlib.Data.Nat.Factorization.Basic
import ModuleBuild.Number.Decimal

/-! # Decimal digits

The digits of a positive number begin with none that is zero (`head?_toDigits_ne_zero`),
a factor of ten is a trailing zero (`toDigits_mul_ten`), and without its trailing zeros
a decimal is written with the digits of a number (`Decimal.scientific_eq`).
-/
namespace ModuleBuild

theorem isDigit_toDigits {n : Nat} {c : Char} (hc : c ∈ Nat.toDigits 10 n) : c.isDigit = true :=
  Nat.isDigit_of_mem_toDigits (by decide) (by decide) hc

theorem lt_pow_length_toDigits (n : Nat) : n < 10 ^ (Nat.toDigits 10 n).length :=
  (Nat.length_toDigits_le_iff (by decide) Nat.length_toDigits_pos).mp le_rfl

theorem pow_length_toDigits_le {n : Nat} (hn : 0 < n) :
    10 ^ ((Nat.toDigits 10 n).length - 1) ≤ n := by
  by_contra hlt
  rcases Nat.eq_zero_or_pos ((Nat.toDigits 10 n).length - 1) with hzero | hpos
  · rw [hzero] at hlt
    omega
  · have := (Nat.length_toDigits_le_iff (by decide) hpos).mpr (Nat.lt_of_not_le hlt)
    omega

/-- A factor of ten is a trailing zero. -/
theorem toDigits_mul_ten {n : Nat} (hn : 0 < n) (k : Nat) :
    Nat.toDigits 10 (n * 10 ^ k) = Nat.toDigits 10 n ++ List.replicate k '0' := by
  induction k with
  | zero => simp
  | succ k ih =>
    have hpos : 0 < n * 10 ^ k := Nat.mul_pos hn (Nat.pow_pos (by decide))
    rw [Nat.pow_succ, ← mul_assoc, Nat.toDigits_of_base_le (by decide) (by omega),
      Nat.mul_div_cancel _ (by decide), Nat.mul_mod_left, ih, List.append_assoc,
      List.replicate_succ']
    rfl

/-- The first digit of a positive number is not zero. -/
theorem head?_toDigits_ne_zero {n : Nat} (hn : 0 < n) :
    (Nat.toDigits 10 n).head? ≠ some '0' := by
  induction n using Nat.strong_induction_on with
  | _ n ih =>
    by_cases hlt : n < 10
    · rw [Nat.toDigits_of_lt_base hlt]
      simpa using hn.ne'
    · rw [Nat.toDigits_of_base_le (by decide) (by omega),
        List.head?_append_of_ne_nil _ Nat.toDigits_ne_nil]
      exact ih (n / 10) (by omega) (by omega)

/-- The last digit of a number is its remainder by ten. -/
theorem head?_reverse_toDigits (n : Nat) :
    (Nat.toDigits 10 n).reverse.head? = some (Nat.digitChar (n % 10)) := by
  rw [Nat.toDigits_eq_if (by decide)]
  split
  · next h => simp [Nat.mod_eq_of_lt h]
  · simp

/-- **Without its trailing zeros**, a decimal is written with the digits of a number. -/
theorem Decimal.scientific_eq {d : Decimal} (hd : d.digits ≠ 0) :
    ∃ n k : Nat, 0 < n ∧ d.digits = n * 10 ^ k ∧
      d.scientific = (Nat.toDigits 10 n, (Nat.toDigits 10 n).length + k + d.exponent) := by
  obtain ⟨k, n, hdvd, hdigits⟩ := Nat.exists_eq_pow_mul_and_not_dvd hd 10 (by decide)
  rw [mul_comm] at hdigits
  have hn : 0 < n := Nat.pos_of_ne_zero fun h => hdvd (h ▸ Nat.dvd_zero 10)
  refine ⟨n, k, hn, hdigits, ?_⟩
  -- what is left of the digits ends in one that is no zero
  have hlast : (Nat.toDigits 10 n).reverse.head? ≠ some '0' := by
    rw [head?_reverse_toDigits]
    simpa [Nat.dvd_iff_mod_eq_zero] using hdvd
  have hstrip : (Nat.toDigits 10 n).reverse.dropWhile (· = '0') = (Nat.toDigits 10 n).reverse := by
    cases h : (Nat.toDigits 10 n).reverse with
    | nil => rfl
    | cons c rest =>
      rw [h] at hlast
      exact List.dropWhile_cons_of_neg (by simpa using hlast)
  simp only [scientific]
  rw [hdigits, toDigits_mul_ten hn, List.reverse_append, List.dropWhile_append_of_pos (by simp),
    hstrip, List.reverse_reverse, List.length_append, List.length_replicate]
  simp [add_assoc]

end ModuleBuild
