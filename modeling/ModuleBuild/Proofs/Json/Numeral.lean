import ModuleBuild.Json.Printer
import ModuleBuild.Json.Reader
import ModuleBuild.Proofs.Number.Decimal

/-! # Reading back the text of numbers

The text of a decimal consists of a whole part, perhaps a fraction and perhaps an
exponent.  `NumeralParts` are such parts: what they read as is stated once
(`readNumber_parts`), and every layout of `Decimal.text` has parts of the same value
(`Decimal.exists_parts`).
-/
namespace ModuleBuild
namespace Json

/-- What follows a number in a document does not go on with it. -/
def EndsNumber (rest : List Char) : Prop :=
  ∀ c ∈ rest.head?, c.isDigit = false ∧ c ≠ '.' ∧ c ≠ 'e' ∧ c ≠ 'E'

theorem endsNumber_nil : EndsNumber [] := nofun

theorem endsNumber_cons {c : Char} {rest : List Char}
    (h : c.isDigit = false ∧ c ≠ '.' ∧ c ≠ 'e' ∧ c ≠ 'E') : EndsNumber (c :: rest) := by
  rintro _ ⟨⟩
  exact h

/-! ## Digits -/

theorem ofDigits_eq (ds : List Char) : ofDigits ds = Nat.ofDigitChars 10 ds 0 := by
  unfold ofDigits Nat.ofDigitChars
  simp only [Nat.mul_comm]

theorem ofDigits_toDigits (n : Nat) : ofDigits (Nat.toDigits 10 n) = n := by
  rw [ofDigits_eq, Nat.ofDigitChars_ten_toDigits]

theorem ofDigits_append_zeros (n k : Nat) :
    ofDigits (Nat.toDigits 10 n ++ List.replicate k '0') = n * 10 ^ k := by
  rw [ofDigits_eq, Nat.ofDigitChars_append, Nat.ofDigitChars_ten_toDigits,
    Nat.ofDigitChars_replicate_zero, Nat.mul_comm]

theorem ofDigits_zeros_append (n k : Nat) :
    ofDigits (List.replicate k '0' ++ Nat.toDigits 10 n) = n := by
  rw [ofDigits_eq, Nat.ofDigitChars_append, Nat.ofDigitChars_replicate_zero, Nat.mul_zero,
    Nat.ofDigitChars_ten_toDigits]

/-- Leading digits are taken up to what is none. -/
theorem digits_append {ds rest : List Char} (hds : ∀ c ∈ ds, c.isDigit = true)
    (hrest : ∀ c ∈ rest.head?, c.isDigit = false) : digits (ds ++ rest) = (ds, rest) := by
  unfold digits
  rw [List.span_eq_takeWhile_dropWhile, List.takeWhile_append_of_pos hds,
    List.dropWhile_append_of_pos hds]
  cases rest with
  | nil => simp
  | cons c rest =>
    have hc := hrest c rfl
    simp [hc]

/-! ## Parts -/

/-- The parts of the text of an unsigned number. -/
structure NumeralParts where
  whole : List Char
  fraction : List Char
  exponent : Option Int

namespace NumeralParts

/-- The text after the whole part and the fraction. -/
def exponentChars : Option Int → List Char
  | none => []
  | some e => 'e' :: (if e < 0 then '-' else '+') :: Nat.toDigits 10 e.natAbs

/-- The text after the whole part. -/
def tail (p : NumeralParts) : List Char :=
  (if p.fraction = [] then [] else '.' :: p.fraction) ++ exponentChars p.exponent

/-- The text. -/
def chars (p : NumeralParts) : List Char := p.whole ++ p.tail

/-- The decimal that the text denotes. -/
def decimal (p : NumeralParts) : Decimal :=
  ⟨ofDigits (p.whole ++ p.fraction), p.exponent.getD 0 - p.fraction.length⟩

/-- Both parts are digits, and the whole part has no superfluous zero. -/
structure WellFormed (p : NumeralParts) : Prop where
  whole_ne_nil : p.whole ≠ []
  whole_digits : ∀ c ∈ p.whole, c.isDigit = true
  head_ne_zero : p.whole.length ≠ 1 → p.whole.head? ≠ some '0'
  fraction_digits : ∀ c ∈ p.fraction, c.isDigit = true

end NumeralParts

open NumeralParts

theorem readExponent_chars (e : Option Int) {rest : List Char} (hrest : EndsNumber rest) :
    readExponent (exponentChars e ++ rest) = some (e.getD 0, rest) := by
  cases e with
  | none =>
    cases rest with
    | nil => rfl
    | cons c rest =>
      obtain ⟨-, -, h₁, h₂⟩ := hrest c rfl
      simp [exponentChars, readExponent, h₁, h₂]
  | some e =>
    have hdigits := digits_append (fun c hc => isDigit_toDigits (n := e.natAbs) hc)
      fun c hc => (hrest c hc).1
    by_cases he : e < 0
    · have hvalue : -(e.natAbs : Int) = e := by omega
      simp only [exponentChars, he, if_true, List.cons_append, readExponent, true_or, hdigits,
        Nat.toDigits_ne_nil, if_false, ofDigits_toDigits, hvalue, Option.getD_some]
    · have hvalue : (e.natAbs : Int) = e := by omega
      simp only [exponentChars, he, if_false, if_true, List.cons_append, readExponent, true_or,
        hdigits, Nat.toDigits_ne_nil, ofDigits_toDigits, hvalue, Option.getD_some,
        Bool.false_eq_true]

theorem readFraction_chars {fraction : List Char} (hdigits : ∀ c ∈ fraction, c.isDigit = true)
    {rest : List Char} (hrest : ∀ c ∈ rest.head?, c.isDigit = false ∧ c ≠ '.') :
    readFraction ((if fraction = [] then [] else '.' :: fraction) ++ rest)
      = some (fraction, rest) := by
  by_cases h : fraction = []
  · subst h
    cases rest with
    | nil => rfl
    | cons c rest =>
      obtain ⟨-, hc⟩ := hrest c rfl
      rw [if_pos rfl, List.nil_append]
      unfold readFraction
      split
      · next heq => exact absurd (List.cons.inj heq).1 hc
      · rfl
  · rw [if_neg h, List.cons_append]
    simp only [readFraction, digits_append hdigits fun c hc => (hrest c hc).1, h, if_false]

/-- An exponent ends the digits before it. -/
theorem exponentChars_append (e : Option Int) {rest : List Char} (hrest : EndsNumber rest) :
    ∀ c ∈ (exponentChars e ++ rest).head?, c.isDigit = false ∧ c ≠ '.' := by
  cases e with
  | none => exact fun c hc => ⟨(hrest c hc).1, (hrest c hc).2.1⟩
  | some e =>
    rintro _ ⟨⟩
    decide

/-- A fraction or an exponent ends the digits before it. -/
theorem tail_append (p : NumeralParts) {rest : List Char} (hrest : EndsNumber rest) :
    ∀ c ∈ (p.tail ++ rest).head?, c.isDigit = false := by
  unfold tail
  by_cases h : p.fraction = []
  · rw [if_pos h]
    exact fun c hc => (exponentChars_append p.exponent hrest c hc).1
  · rw [if_neg h]
    rintro _ ⟨⟩
    decide

/-- **The parts of a number read as the decimal they denote.** -/
theorem readNumber_parts {p : NumeralParts} (hp : p.WellFormed) (negative : Bool)
    {rest : List Char} (hrest : EndsNumber rest) :
    readNumber ((if negative then ['-'] else []) ++ p.chars ++ rest)
      = some (Number.ofDecimal negative p.decimal, rest) := by
  have hwhole : digits (p.whole ++ (p.tail ++ rest)) = (p.whole, p.tail ++ rest) :=
    digits_append hp.whole_digits (tail_append p hrest)
  have hfraction : readFraction (p.tail ++ rest)
      = some (p.fraction, exponentChars p.exponent ++ rest) := by
    rw [tail, List.append_assoc]
    exact readFraction_chars hp.fraction_digits (exponentChars_append p.exponent hrest)
  have hlead : ¬ (p.whole = [] ∨ p.whole.length ≠ 1 ∧ p.whole.head? = some '0') := by
    rintro (h | ⟨h₁, h₂⟩)
    · exact hp.whole_ne_nil h
    · exact hp.head_ne_zero h₁ h₂
  -- digits do not begin with a sign
  have hsign : ∀ t, p.whole ++ (p.tail ++ rest) = '-' :: t → False := by
    intro t h
    obtain ⟨c, ds, hcons⟩ := List.exists_cons_of_ne_nil hp.whole_ne_nil
    have hdigit := hp.whole_digits c (hcons ▸ List.mem_cons_self)
    rw [hcons, List.cons_append] at h
    cases h
    exact absurd hdigit (by decide)
  have hread : p.chars ++ rest = p.whole ++ (p.tail ++ rest) := by rw [chars, List.append_assoc]
  unfold readNumber
  cases negative with
  | true =>
    rw [if_pos rfl, List.append_assoc, hread]
    simp only [List.cons_append, List.nil_append, hwhole]
    simp [hlead, hfraction, readExponent_chars p.exponent hrest, decimal]
  | false =>
    rw [if_neg Bool.false_ne_true, List.nil_append, hread]
    simp only [hwhole]
    simp [hlead, hfraction, readExponent_chars p.exponent hrest, decimal]

/-! ## The layouts of a decimal -/

namespace NumeralParts

variable {n : Nat}

/-- The digits of a number, with the point after some of them. -/
def pointed (n i : Nat) (e : Option Int) : NumeralParts :=
  ⟨(Nat.toDigits 10 n).take i, (Nat.toDigits 10 n).drop i, e⟩

/-- The digits of a number with zeros after them. -/
def padded (n k : Nat) : NumeralParts := ⟨Nat.toDigits 10 n ++ List.replicate k '0', [], none⟩

/-- The digits of a number with zeros and the point before them. -/
def fractional (n k : Nat) : NumeralParts :=
  ⟨['0'], List.replicate k '0' ++ Nat.toDigits 10 n, none⟩

theorem pointed_wellFormed (hn : 0 < n) {i : Nat} (hi : 0 < i) (e : Option Int) :
    (pointed n i e).WellFormed where
  whole_ne_nil h := by
    rcases List.take_eq_nil_iff.mp h with h | h
    · omega
    · exact Nat.toDigits_ne_nil h
  whole_digits c hc := isDigit_toDigits (List.mem_of_mem_take hc)
  head_ne_zero _ := by
    rw [pointed, List.head?_take, if_neg hi.ne']
    exact head?_toDigits_ne_zero hn
  fraction_digits c hc := isDigit_toDigits (List.mem_of_mem_drop hc)

theorem padded_wellFormed (hn : 0 < n) (k : Nat) : (padded n k).WellFormed where
  whole_ne_nil h := Nat.toDigits_ne_nil (List.append_eq_nil_iff.mp h).1
  whole_digits c hc := by
    rcases List.mem_append.mp hc with hc | hc
    · exact isDigit_toDigits hc
    · rw [List.eq_of_mem_replicate hc]
      rfl
  head_ne_zero _ := by
    rw [padded, List.head?_append_of_ne_nil _ Nat.toDigits_ne_nil]
    exact head?_toDigits_ne_zero hn
  fraction_digits := nofun

theorem fractional_wellFormed (n k : Nat) : (fractional n k).WellFormed where
  whole_ne_nil := nofun
  whole_digits c hc := by
    rw [List.mem_singleton.mp hc]
    rfl
  head_ne_zero h := absurd rfl h
  fraction_digits c hc := by
    rcases List.mem_append.mp hc with hc | hc
    · rw [List.eq_of_mem_replicate hc]
      rfl
    · exact isDigit_toDigits hc

theorem decimal_pointed (n i : Nat) (e : Option Int) :
    (pointed n i e).decimal = ⟨n, e.getD 0 - ((Nat.toDigits 10 n).length - i : Nat)⟩ := by
  simp only [decimal, pointed, List.take_append_drop, ofDigits_toDigits, List.length_drop]

theorem decimal_padded (n k : Nat) : (padded n k).decimal = ⟨n * 10 ^ k, 0⟩ := by
  simp [decimal, padded, ofDigits_append_zeros]

theorem decimal_fractional (n k : Nat) :
    (fractional n k).decimal = ⟨n, -((k : Int) + (Nat.toDigits 10 n).length)⟩ := by
  have hdigits : ofDigits (['0'] ++ (List.replicate k '0' ++ Nat.toDigits 10 n)) = n :=
    ofDigits_zeros_append n (k + 1)
  simp only [decimal, fractional, hdigits, Option.getD_none, List.length_append,
    List.length_replicate, Nat.cast_add, zero_sub]

end NumeralParts
end Json

open Json Json.NumeralParts

/-- **The text of a decimal has parts of the same value.** -/
theorem Decimal.exists_parts {d : Decimal} (hd : d.digits ≠ 0) :
    ∃ p : NumeralParts, p.WellFormed ∧ d.text.toList = p.chars ∧
      Magnitude.ofDecimal p.decimal = Magnitude.ofDecimal d := by
  obtain ⟨n, k, hn, hdigits, hscientific⟩ := d.scientific_eq hd
  have hlength : 0 < (Nat.toDigits 10 n).length := Nat.length_toDigits_pos
  generalize hpoint : (Nat.toDigits 10 n).length + (k : Int) + d.exponent = point at hscientific
  have hvalue : Magnitude.ofDecimal d
      = Magnitude.ofDecimal ⟨n, point - (Nat.toDigits 10 n).length⟩ := by
    rw [show d = ⟨n * 10 ^ k, d.exponent⟩ by rw [← hdigits], Magnitude.ofDecimal_shift hn]
    congr 2
    omega
  simp only [text, hscientific]
  split
  · -- an integer, with zeros after its digits
    refine ⟨padded n (point - (Nat.toDigits 10 n).length).toNat, padded_wellFormed hn _, ?_, ?_⟩
    · simp [chars, tail, padded, exponentChars]
    · rw [decimal_padded, Magnitude.ofDecimal_shift hn, hvalue]
      congr 2
      omega
  split
  · -- the point stands among the digits
    refine ⟨pointed n point.toNat none, pointed_wellFormed hn (by omega) none, ?_, ?_⟩
    · have hdrop : (Nat.toDigits 10 n).drop point.toNat ≠ [] := by
        rw [ne_eq, List.drop_eq_nil_iff]
        omega
      simp [chars, tail, pointed, exponentChars, hdrop]
    · rw [decimal_pointed, hvalue]
      congr 2
      simp only [Option.getD_none]
      omega
  split
  · -- zeros stand between the point and the digits
    refine ⟨fractional n (-point).toNat, fractional_wellFormed n _, ?_, ?_⟩
    · simp [chars, tail, fractional, exponentChars, Nat.toDigits_ne_nil]
    · rw [decimal_fractional, hvalue]
      congr 2
      omega
  · -- the point stands after the first digit, and an exponent follows
    refine ⟨pointed n 1 (some (point - 1)), pointed_wellFormed hn one_pos _, ?_, ?_⟩
    · have hdrop : (Nat.toDigits 10 n).length = 1 ↔ (Nat.toDigits 10 n).drop 1 = [] := by
        rw [List.drop_eq_nil_iff]
        omega
      have hmark : (if point - 1 < 0 then "e-" else "e+").toList
          = ['e', if point - 1 < 0 then '-' else '+'] := by
        split <;> rfl
      simp only [String.toList_append, String.toList_ofList, hdrop, hmark, Nat.toString_eq_repr,
        Nat.toList_repr, chars, tail, pointed, exponentChars, List.append_assoc, List.cons_append,
        List.nil_append]
      congr
    · rw [decimal_pointed, hvalue]
      congr 2
      simp only [Option.getD_some]
      omega

/-! ## The text of a number -/

/-- A number without the sign of zero. -/
def Number.unsignedZero : Number → Number
  | .finite negative m => .finite (negative && m.val ≠ 0) m
  | x => x

@[simp] theorem Number.unsignedZero_unsignedZero (x : Number) :
    x.unsignedZero.unsignedZero = x.unsignedZero := by
  cases x <;> simp [unsignedZero]

@[simp] theorem Number.unsignedZero_ofInt (i : Int) : (ofInt i).unsignedZero = ofInt i := by
  unfold ofInt
  split
  case h_2 => rfl
  case h_1 m hm =>
    rw [unsignedZero]
    congr 1
    rw [Bool.and_eq_left_iff_imp, decide_eq_true_eq, decide_eq_true_eq]
    intro hneg
    exact Magnitude.ofRatio_one_ne_zero (Int.natAbs_pos.mpr hneg.ne) hm

theorem Magnitude.digits_shortest_ne_zero {m : Magnitude} (hm : m.val ≠ 0) :
    m.shortest.digits ≠ 0 := by
  intro hzero
  have hread := ofDecimal_shortest hm
  rw [ofDecimal, hzero] at hread
  simp only [true_or, if_true, Option.some.injEq] at hread
  exact hm (hread ▸ rfl)

/-- **A finite number's text reads as the number**, without the sign of zero. -/
theorem Json.readNumber_numeral {x : Number} (hx : x.isFinite = true) {rest : List Char}
    (hrest : EndsNumber rest) : readNumber (numeral x ++ rest) = some (x.unsignedZero, rest) := by
  rw [numeral, if_pos hx]
  cases x with
  | nan | infinite negative => cases hx
  | finite negative m =>
    by_cases hm : m.val = 0
    · obtain rfl : m = Magnitude.zero := Fin.ext hm
      have hzero : (⟨['0'], [], none⟩ : NumeralParts).WellFormed :=
        ⟨nofun, List.forall_mem_singleton.mpr rfl, fun h => absurd rfl h, nofun⟩
      have hread := readNumber_parts hzero false hrest
      cases negative <;> exact hread
    · obtain ⟨p, hp, hchars, hvalue⟩ :=
        Decimal.exists_parts (Magnitude.digits_shortest_ne_zero hm)
      rw [Magnitude.ofDecimal_shortest hm] at hvalue
      have htext : (Number.finite negative m).text.toList
          = (if negative then ['-'] else []) ++ p.chars := by
        rw [← hchars]
        cases negative <;> simp [Number.text, hm]
      rw [htext, readNumber_parts hp negative hrest, Number.ofDecimal, hvalue]
      simp [Number.unsignedZero, hm]

/-- A number begins with a digit or a sign. -/
theorem Json.numeral_eq_cons {x : Number} (hx : x.isFinite = true) :
    ∃ c cs, numeral x = c :: cs ∧ (c.isDigit = true ∨ c = '-') := by
  rw [numeral, if_pos hx]
  cases x with
  | nan | infinite negative => cases hx
  | finite negative m =>
    by_cases hm : m.val = 0
    · exact ⟨'0', [], by simp [Number.text, hm], .inl rfl⟩
    · obtain ⟨p, hp, hchars, -⟩ := Decimal.exists_parts (Magnitude.digits_shortest_ne_zero hm)
      obtain ⟨c, ds, hcons⟩ := List.exists_cons_of_ne_nil hp.whole_ne_nil
      cases negative with
      | true => exact ⟨'-', p.chars, by simp [Number.text, hm, hchars], .inr rfl⟩
      | false =>
        refine ⟨c, ds ++ p.tail, ?_, .inl (hp.whole_digits c (hcons ▸ List.mem_cons_self))⟩
        simp [Number.text, hm, hchars, chars, hcons]

end ModuleBuild
