import ModuleBuild.Number.Numeral
import ModuleBuild.Proofs.Number.Digits

/-! # Reading back the text of integers

The text of an integer is read as the integer (`Numeral.integer?_toString`), and the
names of the numbers that are not finite as those numbers (`Numeral.number_text`).
-/
namespace ModuleBuild
namespace Numeral

theorem digit?_digitChar {d : Nat} (hd : d < 10) : digit? (Nat.digitChar d) = some d := by
  revert d
  decide

/-- The digits of a number spell the number. -/
theorem natural?_toDigits (n : Nat) : natural? 10 (Nat.toDigits 10 n) = some n := by
  rw [natural?, if_neg Nat.toDigits_ne_nil]
  induction n using Nat.strong_induction_on with
  | _ n ih =>
    by_cases hlt : n < 10
    · rw [Nat.toDigits_of_lt_base hlt]
      simp [digit?_digitChar hlt, hlt]
    · have hmod : n % 10 < 10 := Nat.mod_lt n (by decide)
      rw [Nat.toDigits_of_base_le (by decide) (by omega), List.foldlM_append,
        ih (n / 10) (by omega)]
      simp [digit?_digitChar hmod, hmod]
      omega

theorem toNat_of_isDigit {c : Char} (hc : c.isDigit = true) : 48 ≤ c.toNat ∧ c.toNat ≤ 57 := by
  simp only [Char.isDigit, Bool.and_eq_true, decide_eq_true_eq] at hc
  exact ⟨hc.1, hc.2⟩

theorem isBlank_of_isDigit {c : Char} (hc : c.isDigit = true) : Text.isBlank c = false := by
  obtain ⟨hlow, hhigh⟩ := toNat_of_isDigit hc
  have hspace : c ≠ ' ' := by
    rintro rfl
    exact absurd hlow (by decide)
  simp [Text.isBlank, Text.wideBlanks, hspace]
  omega

theorem trimBlanks_of_no_blank {cs : List Char} (h : ∀ c ∈ cs, Text.isBlank c = false) :
    Text.trimBlanks cs = cs := by
  have hstop (l : List Char) (hl : ∀ c ∈ l, Text.isBlank c = false) :
      l.dropWhile Text.isBlank = l := by
    cases l with
    | nil => rfl
    | cons c rest => exact List.dropWhile_cons_of_neg (by simp [hl c])
  rw [Text.trimBlanks, hstop cs h, hstop cs.reverse fun c hc => h c (List.mem_reverse.mp hc),
    List.reverse_reverse]

/-- Digits have no base mark. -/
theorem based?_toDigits (n : Nat) : based? (Nat.toDigits 10 n) = none := by
  rcases Nat.eq_zero_or_pos n with rfl | hn
  · rfl
  · have hhead := head?_toDigits_ne_zero hn
    unfold based?
    split
    · next heq =>
      rw [heq] at hhead
      exact absurd rfl hhead
    · rfl

theorem signed_toDigits (n : Nat) : signed (Nat.toDigits 10 n) = (false, Nat.toDigits 10 n) := by
  have hdigit (c : Char) (rest : List Char) (h : Nat.toDigits 10 n = c :: rest) :
      c.isDigit = true := isDigit_toDigits (n := n) (h ▸ List.mem_cons_self)
  unfold signed
  split
  · next rest heq => exact absurd (hdigit '-' rest heq) (by decide)
  · next rest heq => exact absurd (hdigit '+' rest heq) (by decide)
  · rfl

theorem toList_toString (i : Int) :
    (toString i).toList = (if i < 0 then ['-'] else []) ++ Nat.toDigits 10 i.natAbs := by
  rw [Int.toString_eq_repr, Int.repr_eq_if]
  by_cases hi : 0 ≤ i
  · have habs : i.toNat = i.natAbs := by omega
    rw [if_pos hi, if_neg (by omega), habs, Nat.toList_repr, List.nil_append]
  · have habs : (-i).toNat = i.natAbs := by omega
    rw [if_neg hi, if_pos (by omega), habs, String.toList_append, Nat.toList_repr]
    rfl

/-- **The text of an integer spells the integer.** -/
theorem integer?_toString (i : Int) : integer? (toString i) = some i := by
  have hblank : ∀ c ∈ (toString i).toList, Text.isBlank c = false := by
    intro c hc
    rw [toList_toString] at hc
    rcases List.mem_append.mp hc with hc | hc
    · split at hc
      · rw [List.mem_singleton.mp hc]
        rfl
      · cases hc
    · exact isBlank_of_isDigit (isDigit_toDigits hc)
  unfold integer?
  rw [trimBlanks_of_no_blank hblank, toList_toString]
  by_cases hi : i < 0
  · have hvalue : -(i.natAbs : Int) = i := by omega
    rw [if_pos hi]
    change ((natural? 10 (Nat.toDigits 10 i.natAbs)).bind fun n => some (n : Int)).map (fun n => -n)
      = some i
    rw [natural?_toDigits, Option.bind_some, Option.map_some, hvalue]
  · have hvalue : (i.natAbs : Int) = i := by omega
    rw [if_neg hi, List.nil_append, if_neg Nat.toDigits_ne_nil, based?_toDigits, signed_toDigits]
    change ((natural? 10 (Nat.toDigits 10 i.natAbs)).bind fun n => some (n : Int)).map (fun n => n)
      = some i
    rw [natural?_toDigits, Option.bind_some, Option.map_some, hvalue]

/-- **The names of the numbers that are not finite spell them.** -/
theorem number_text {x : Number} (hx : x.isFinite = false) : number x.text = x := by
  cases x with
  | nan => rfl
  | infinite negative => cases negative <;> rfl
  | finite negative m => cases hx

end Numeral
end ModuleBuild
