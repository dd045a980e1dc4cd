import ModuleBuild.Text.Utf8

/-! # UTF-8 round trip

The bytes of a character are read back as the character, whatever follows them
(`decodeChars_encodeChar`), so the bytes of a text are read back as the text.
-/
namespace ModuleBuild
namespace Utf8

/-! ## Single bytes -/

theorem toNat_toUInt8 {n : Nat} (hn : n < 0x100) : n.toUInt8.toNat = n :=
  UInt8.toNat_ofNat_of_lt hn

theorem lead_one : ∀ n < 0x80, lead n.toUInt8 = some (0, n) := by decide

theorem lead_two : ∀ q, 2 ≤ q → q < 0x20 → lead (0xC0 + q).toUInt8 = some (1, q) := by
  intro q hlow hhigh
  have hall : ∀ q < 0x20, 2 ≤ q → lead (0xC0 + q).toUInt8 = some (1, q) := by decide
  exact hall q hhigh hlow

theorem lead_three : ∀ q < 0x10, lead (0xE0 + q).toUInt8 = some (2, q) := by decide

theorem lead_four : ∀ q < 5, lead (0xF0 + q).toUInt8 = some (3, q) := by decide

theorem secondRange_two : ∀ q < 0x20, secondRange (0xC0 + q).toUInt8 = (0x80, 0xBF) := by decide

theorem secondRange_three : ∀ q < 0x10, secondRange (0xE0 + q).toUInt8
    = (if q = 0 then 0xA0 else 0x80, if q = 0xD then 0x9F else 0xBF) := by decide

theorem secondRange_four : ∀ q < 5, secondRange (0xF0 + q).toUInt8
    = (if q = 0 then 0x90 else 0x80, if q = 4 then 0x8F else 0xBF) := by decide

/-- A continuation byte in the range is taken in. -/
theorem continuations_cons {range : UInt8 × UInt8} {r : Nat} (hr : r < 0x40)
    (hlow : range.1.toNat ≤ 0x80 + r) (hhigh : 0x80 + r ≤ range.2.toNat) (k acc : Nat)
    (rest : List UInt8) :
    continuations range (k + 1) acc ((0x80 + r).toUInt8 :: rest)
      = continuations (0x80, 0xBF) k (acc * 0x40 + r) rest := by
  have hb : (0x80 + r).toUInt8.toNat = 0x80 + r := toNat_toUInt8 (by omega)
  have hrange : (range.1 ≤ (0x80 + r).toUInt8 && (0x80 + r).toUInt8 ≤ range.2) = true := by
    rw [Bool.and_eq_true, decide_eq_true_eq, decide_eq_true_eq, UInt8.le_iff_toNat_le,
      UInt8.le_iff_toNat_le, hb]
    exact ⟨hlow, hhigh⟩
  rw [continuations, if_pos hrange, hb, Nat.add_sub_cancel_left]

theorem continuations_default (n k acc : Nat) (rest : List UInt8) :
    continuations (0x80, 0xBF) (k + 1) acc ((0x80 + n % 0x40).toUInt8 :: rest)
      = continuations (0x80, 0xBF) k (acc * 0x40 + n % 0x40) rest := by
  have hr : n % 0x40 < 0x40 := Nat.mod_lt n (by decide)
  exact continuations_cons hr (Nat.le_add_right _ _) (Nat.add_le_add_left (Nat.le_of_lt_succ hr) _)
    k acc rest

theorem decodeChars_of_lead {b : UInt8} {n bits : Nat} {bs rest : List UInt8} {c : Char}
    (hlead : lead b = some (n, bits))
    (hread : continuations (secondRange b) n bits bs = (some c.toNat, rest)) :
    decodeChars (b :: bs) = c :: decodeChars rest := by
  rw [decodeChars, hlead]
  simp only [hread, Option.elim, Char.ofNat_toNat]

/-! ## Characters -/

theorem toNat_valid (c : Char) :
    c.toNat < 0x110000 ∧ ¬ (0xD800 ≤ c.toNat ∧ c.toNat ≤ 0xDFFF) := by
  have hvalid : c.toNat < 0xD800 ∨ 0xDFFF < c.toNat ∧ c.toNat < 0x110000 := c.valid
  omega

/-- **The bytes of a character read as the character.** -/
theorem decodeChars_encodeChar (c : Char) (rest : List UInt8) :
    decodeChars (encodeChar c ++ rest) = c :: decodeChars rest := by
  obtain ⟨hlt, hsurrogate⟩ := toNat_valid c
  unfold encodeChar
  simp only
  split
  · next h => exact decodeChars_of_lead (lead_one _ h) rfl
  split
  · next h =>
    simp only [List.cons_append, List.nil_append]
    refine decodeChars_of_lead (lead_two (c.toNat / 0x40) (by omega) (by omega)) ?_
    rw [secondRange_two _ (by omega), continuations_default, continuations, Nat.div_add_mod']
  split
  · next h =>
    -- the range of the second byte leaves out overlong forms and surrogates
    have hlow : (if c.toNat / 0x1000 = 0 then (0xA0 : UInt8) else 0x80).toNat
        ≤ 0x80 + c.toNat / 0x40 % 0x40 := by
      split
      · change 0xA0 ≤ _
        omega
      · change 0x80 ≤ _
        omega
    have hhigh : 0x80 + c.toNat / 0x40 % 0x40
        ≤ (if c.toNat / 0x1000 = 0xD then (0x9F : UInt8) else 0xBF).toNat := by
      split
      · change _ ≤ 0x9F
        omega
      · change _ ≤ 0xBF
        omega
    simp only [List.cons_append, List.nil_append]
    refine decodeChars_of_lead (lead_three (c.toNat / 0x1000) (by omega)) ?_
    rw [secondRange_three _ (by omega),
      continuations_cons (Nat.mod_lt _ (by decide)) hlow hhigh, continuations_default,
      continuations]
    congr 2
    omega
  · next h =>
    have hlow : (if c.toNat / 0x40000 = 0 then (0x90 : UInt8) else 0x80).toNat
        ≤ 0x80 + c.toNat / 0x1000 % 0x40 := by
      split
      · change 0x90 ≤ _
        omega
      · change 0x80 ≤ _
        omega
    have hhigh : 0x80 + c.toNat / 0x1000 % 0x40
        ≤ (if c.toNat / 0x40000 = 4 then (0x8F : UInt8) else 0xBF).toNat := by
      split
      · change _ ≤ 0x8F
        omega
      · change _ ≤ 0xBF
        omega
    simp only [List.cons_append, List.nil_append]
    refine decodeChars_of_lead (lead_four (c.toNat / 0x40000) (by omega)) ?_
    rw [secondRange_four _ (by omega),
      continuations_cons (Nat.mod_lt _ (by decide)) hlow hhigh, continuations_default,
      continuations_default, continuations]
    congr 2
    omega

/-- **The bytes of a text read as the text.** -/
theorem decode_encode (s : String) : decode (encode s) = s := by
  have hchars (cs : List Char) : decodeChars (cs.flatMap encodeChar) = cs := by
    induction cs with
    | nil => simp [decodeChars]
    | cons c cs ih => rw [List.flatMap_cons, decodeChars_encodeChar, ih]
  rw [decode, encode, hchars, String.ofList_toList]

end Utf8
end ModuleBuild
